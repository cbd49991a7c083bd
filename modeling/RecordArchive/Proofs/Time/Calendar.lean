import Mathlib.Tactic.IntervalCases
import RecordArchive.Time.Calendar

/-!
# Days that follow each other

The calendar computes a date from the number of its day.  The main statement is `ofDays_succ`: the
date of the next day is the day after in the same month, or else the first of the next month, where
months have the lengths of the Gregorian calendar in every year.  Dates are therefore in the order
of their days: `before_ofDays`.
-/

namespace RecordArchive.Date

theorem isLeapYear_iff {year : Int} :
    isLeapYear year = true ↔ year % 4 = 0 ∧ (year % 100 ≠ 0 ∨ year % 400 = 0) := by
  simp [isLeapYear]

def daysInMonth (year : Int) (month : Nat) : Nat :=
  match month with
  | 2 => if isLeapYear year then 29 else 28
  | 4 | 6 | 9 | 11 => 30
  | _ => 31

theorem daysInMonth_bounds (year : Int) (month : Nat) :
    0 < daysInMonth year month ∧ daysInMonth year month ≤ 31 := by
  unfold daysInMonth
  split
  · split <;> decide
  all_goals decide

/-- The day after. -/
def next (d : Date) : Date :=
  if d.day < daysInMonth d.year d.month then { d with day := d.day + 1 }
  else if d.month < 12 then ⟨d.year, d.month + 1, 1⟩
  else ⟨d.year + 1, 1, 1⟩

/-! ## Days reckoned from March

An era is reckoned from 1 March, and so is each of its years.  The leap day is then the last day
of its year, and all lengths but that of the last month are the same in every year. -/

/-- A day by its era, the year of the era, the month of the year and the day of the month, each
counted from zero. -/
@[ext]
structure Reckoned where
  era : Int
  year : Nat
  month : Nat
  day : Nat

/-- The days of an era before one of its years, each of which begins in March. -/
def daysBeforeYear (year : Nat) : Nat := 365 * year + year / 4 - year / 100

/-- The days of such a year before one of its months. -/
def daysFromMarch (month : Nat) : Nat := (153 * month + 2) / 5

namespace Reckoned

def date (r : Reckoned) : Date where
  year := if r.month < 10 then r.era * 400 + r.year else r.era * 400 + r.year + 1
  month := if r.month < 10 then r.month + 3 else r.month - 9
  day := r.day + 1

/-- Days since 1 January 1970. -/
def number (r : Reckoned) : Int :=
  r.era * 146097 + (daysBeforeYear r.year + daysFromMarch r.month + r.day : Nat) - marchOrigin

def monthLength (r : Reckoned) : Nat := daysInMonth r.date.year r.date.month

structure Valid (r : Reckoned) : Prop where
  year : r.year < 400
  month : r.month < 12
  day : r.day < r.monthLength

end Reckoned

/-- The days of a year of an era.  Its last month lies in the next year of the calendar. -/
def daysInYear (year : Nat) : Nat := if isLeapYear (year + 1) then 366 else 365

theorem daysInYear_eq {year : Nat} (h : year < 400) :
    daysInYear year =
      if (year + 1) % 4 = 0 ∧ ((year + 1) % 100 ≠ 0 ∨ year = 399) then 366 else 365 := by
  rw [daysInYear]
  refine if_congr (isLeapYear_iff.trans ?_) rfl rfl
  omega

theorem isLeapYear_of_era (era : Int) (year : Nat) :
    isLeapYear (era * 400 + year + 1) = isLeapYear (year + 1) := by
  rw [Bool.eq_iff_iff, isLeapYear_iff, isLeapYear_iff]
  omega

theorem daysBeforeYear_succ {year : Nat} (h : year < 399) :
    daysBeforeYear (year + 1) = daysBeforeYear year + daysInYear year := by
  rw [daysInYear_eq (by omega), daysBeforeYear, daysBeforeYear]
  split <;> omega

theorem daysBeforeYear_le {year later : Nat} (h : year ≤ later) :
    daysBeforeYear year ≤ daysBeforeYear later := by
  induction h with
  | refl => exact Nat.le_refl _
  | @step later _ ih =>
    have hstep : daysBeforeYear later ≤ daysBeforeYear (later + 1) := by
      rw [daysBeforeYear, daysBeforeYear]
      omega
    exact Nat.le_trans ih hstep

namespace Reckoned

variable {r : Reckoned}

theorem monthLength_of_lt (h : r.month < 11) :
    r.monthLength = daysFromMarch (r.month + 1) - daysFromMarch r.month := by
  obtain ⟨era, year, month, day⟩ := r
  simp only at h
  interval_cases month <;> simp [monthLength, date, daysInMonth, daysFromMarch]

theorem monthLength_last (h : r.month = 11) : r.monthLength = daysInYear r.year - 337 := by
  obtain ⟨era, year, month, day⟩ := r
  subst h
  show (if isLeapYear (era * 400 + year + 1) then 29 else 28) = daysInYear year - 337
  rw [isLeapYear_of_era, daysInYear]
  split <;> rfl

/-- The days of a year before and in a month. -/
theorem dayOfYear_lt (h : r.Valid) : daysFromMarch r.month + r.day < daysInYear r.year := by
  obtain ⟨hyear, hmonth, hday⟩ := h
  have hlength := daysInYear_eq hyear
  by_cases hlast : r.month = 11
  · rw [monthLength_last hlast] at hday
    rw [hlast, daysFromMarch]
    omega
  · rw [monthLength_of_lt (by omega)] at hday
    simp only [daysFromMarch] at hday ⊢
    split at hlength <;> omega

theorem dayOfEra_lt (h : r.Valid) :
    daysBeforeYear r.year + (daysFromMarch r.month + r.day) < 146097 := by
  have hday := dayOfYear_lt h
  have hlength := daysInYear_eq h.year
  have hyear := h.year
  rw [daysBeforeYear]
  split at hlength <;> omega

/-- Later years of an era begin later, and so do later months of a year. -/
theorem number_inj {r' : Reckoned} (h : r.Valid) (h' : r'.Valid) (heq : r.number = r'.number) :
    r = r' := by
  have hlater {r r' : Reckoned} (h : r.Valid) (h' : r'.Valid) (hyear : r.year < r'.year) :
      daysBeforeYear r.year + daysInYear r.year ≤ daysBeforeYear r'.year := by
    have hlast := h'.year
    rw [← daysBeforeYear_succ (by omega)]
    exact daysBeforeYear_le hyear
  have hnext {r r' : Reckoned} (h : r.Valid) (h' : r'.Valid) (hmonth : r.month < r'.month) :
      daysFromMarch r.month + r.day < daysFromMarch r'.month := by
    have hlast := h'.month
    have hday := h.day
    rw [monthLength_of_lt (by omega)] at hday
    simp only [daysFromMarch] at hday ⊢
    omega
  have hday := dayOfYear_lt h
  have hday' := dayOfYear_lt h'
  have hera := dayOfEra_lt h
  have hera' := dayOfEra_lt h'
  simp only [number] at heq
  have hsame : r.era = r'.era := by omega
  have hyear : r.year = r'.year := by
    rcases Nat.lt_trichotomy r.year r'.year with hlt | heq' | hlt
    · have := hlater h h' hlt
      omega
    · exact heq'
    · have := hlater h' h hlt
      omega
  rw [hyear] at heq
  have hmonth : r.month = r'.month := by
    rcases Nat.lt_trichotomy r.month r'.month with hlt | heq' | hlt
    · have := hnext h h' hlt
      omega
    · exact heq'
    · have := hnext h' h hlt
      omega
  rw [hmonth] at heq
  have hsameDay : r.day = r'.day := by omega
  exact Reckoned.ext hsame hyear hmonth hsameDay

end Reckoned

/-! ## The computation -/

/-- The year of an era, from the days of the era and the centuries among them.  Each leap day
of the era that is past moves the division by 365 on, and each century moves it back. -/
theorem yearOfCentury_bounds {x quads rest century year : Nat} (hx : x = 1460 * quads + rest)
    (hrest : rest < 1460) (hlow : 25 * century ≤ quads) (hhigh : quads ≤ 100)
    (h : year = (x - quads + century) / 365) :
    365 * year + year / 4 ≤ x + century ∧
      x + century < 365 * year + year / 4 + if (year + 1) % 4 = 0 then 366 else 365 := by
  by_cases hlate : rest + century < quads
  · have hyear : year = 4 * (quads - 1) + 3 := by omega
    have hquarter : year / 4 = quads - 1 := by omega
    rw [hquarter, if_pos (by omega)]
    omega
  · obtain ⟨within, hwithin⟩ : ∃ within, within = (rest + century - quads) / 365 := ⟨_, rfl⟩
    have hyear : year = 4 * quads + within := by omega
    have hless : within < 4 := by omega
    have hquarter : year / 4 = quads := by omega
    rw [hquarter]
    split <;> omega

/-- The year of an era is found among its days. -/
theorem yearOfEra_bounds {x year : Nat} (hx : x < 146097)
    (h : year = (x - x / 1460 + x / 36524 - x / 146096) / 365) :
    year < 400 ∧ daysBeforeYear year ≤ x ∧ x < daysBeforeYear year + daysInYear year := by
  obtain ⟨century, hcentury⟩ : ∃ century, century = x / 36524 - x / 146096 := ⟨_, rfl⟩
  have hless : century < 4 := by omega
  have hyears : year / 100 = century := by
    obtain rfl | rfl | rfl | rfl : century = 0 ∨ century = 1 ∨ century = 2 ∨ century = 3 := by
      omega
    all_goals omega
  have hyear : year = (x - x / 1460 + century) / 365 := by omega
  have hbound : year < 400 := by omega
  have hquads : x = 1460 * (x / 1460) + x % 1460 := by omega
  have hwhole := yearOfCentury_bounds hquads (by omega) (by omega) (by omega) hyear
  rw [daysInYear_eq hbound, daysBeforeYear, hyears]
  refine ⟨hbound, by omega, ?_⟩
  by_cases hlast : (year + 1) % 100 = 0 ∧ year ≠ 399
  · -- The year ends a century and has no leap day.
    have hend : year = 100 * century + 99 := by omega
    have hquarter : year / 4 = 25 * century + 24 := by omega
    rw [hquarter, if_pos (by omega)] at hwhole
    rw [hquarter, if_neg (by omega)]
    omega
  · have hleap : (year + 1) % 4 = 0 ∧ ((year + 1) % 100 ≠ 0 ∨ year = 399) ↔
        (year + 1) % 4 = 0 := by omega
    rw [if_congr hleap rfl rfl]
    omega

/-- What the computation finds for a day. -/
theorem exists_reckoned (n : Int) :
    ∃ r : Reckoned, r.Valid ∧ r.number = n ∧ ofDays n = r.date := by
  obtain ⟨x, hx⟩ : ∃ x, x = ((n + marchOrigin) % 146097).toNat := ⟨_, rfl⟩
  obtain ⟨year, hyear⟩ : ∃ year, year = (x - x / 1460 + x / 36524 - x / 146096) / 365 := ⟨_, rfl⟩
  obtain ⟨day, hday⟩ : ∃ day, day = x - daysBeforeYear year := ⟨_, rfl⟩
  obtain ⟨month, hmonth⟩ : ∃ month, month = (5 * day + 2) / 153 := ⟨_, rfl⟩
  obtain ⟨hless, hlow, hhigh⟩ := yearOfEra_bounds (by omega) hyear
  have hlength := daysInYear_eq hless
  have hmonthDay : daysFromMarch month ≤ day := by
    rw [daysFromMarch]
    omega
  have hlast : month < 12 := by
    split at hlength <;> omega
  have hdate : ofDays n = Reckoned.date
      ⟨(n + marchOrigin) / 146097, year, month, day - daysFromMarch month⟩ := by
    simp only [ofDays, Reckoned.date, ← hx, ← hyear, daysFromMarch]
    rw [← daysBeforeYear, ← hday, ← hmonth]
    by_cases hearly : month < 10
    · have hnot : ¬ month + 3 ≤ 2 := by omega
      simp only [if_pos hearly, if_neg hnot]
    · have hnew : month - 9 ≤ 2 := by omega
      simp only [if_neg hearly, if_pos hnew]
  refine ⟨⟨(n + marchOrigin) / 146097, year, month, day - daysFromMarch month⟩,
    ⟨hless, hlast, ?_⟩, ?_, hdate⟩
  · show day - daysFromMarch month < Reckoned.monthLength _
    by_cases hend : month = 11
    · have hrest : day - 337 < daysInYear year - 337 := by omega
      rw [Reckoned.monthLength_last hend, hend]
      exact hrest
    · rw [Reckoned.monthLength_of_lt (show month < 11 by omega)]
      simp only [daysFromMarch] at hmonthDay ⊢
      omega
  · simp only [Reckoned.number]
    omega

theorem ofDays_number {r : Reckoned} (h : r.Valid) : ofDays r.number = r.date := by
  obtain ⟨r', h', hnumber, hdate⟩ := exists_reckoned r.number
  rw [hdate, Reckoned.number_inj h' h hnumber]

/-! ## Days in order -/

namespace Reckoned

variable {r : Reckoned}

theorem valid_first {year month : Nat} (hyear : year < 400) (hmonth : month < 12) (era : Int) :
    Valid ⟨era, year, month, 0⟩ := ⟨hyear, hmonth, (daysInMonth_bounds _ _).1⟩

theorem next_within (h : r.day + 1 < r.monthLength) :
    r.date.next = date { r with day := r.day + 1 } := by
  have hday : r.date.day < daysInMonth r.date.year r.date.month := h
  rw [next, if_pos hday]
  rfl

/-- The last day of a month is followed by the first of another. -/
theorem next_last (h : r.day + 1 = r.monthLength) :
    r.date.next = if r.date.month < 12 then ⟨r.date.year, r.date.month + 1, 1⟩
      else ⟨r.date.year + 1, 1, 1⟩ := by
  have hday : ¬ r.date.day < daysInMonth r.date.year r.date.month :=
    Nat.not_lt.mpr (Nat.le_of_eq h.symm)
  rw [next, if_neg hday]

theorem date_of_lt (h : r.month < 10) :
    r.date = ⟨r.era * 400 + r.year, r.month + 3, r.day + 1⟩ := by
  rw [date, if_pos h, if_pos h]

/-- The year of the calendar begins within the year that is reckoned from March. -/
theorem date_of_le (h : 10 ≤ r.month) :
    r.date = ⟨r.era * 400 + r.year + 1, r.month - 9, r.day + 1⟩ := by
  rw [date, if_neg (Nat.not_lt.mpr h), if_neg (Nat.not_lt.mpr h)]

theorem next_month (hmonth : r.month < 11) (h : r.day + 1 = r.monthLength) :
    r.date.next = date ⟨r.era, r.year, r.month + 1, 0⟩ := by
  rw [next_last h]
  by_cases hold : r.month < 9
  · rw [date_of_lt (show r.month < 10 by omega), date_of_lt (show r.month + 1 < 10 by omega)]
    exact if_pos (show r.month + 3 < 12 by omega)
  · obtain hdecember | hjanuary : r.month = 9 ∨ r.month = 10 := by omega
    · rw [date_of_lt (show r.month < 10 by omega), hdecember]
      rfl
    · rw [date_of_le (show 10 ≤ r.month by omega), hjanuary]
      rfl

theorem next_year (hmonth : r.month = 11) (h : r.day + 1 = r.monthLength) :
    r.date.next = date ⟨r.era, r.year + 1, 0, 0⟩ := by
  rw [next_last h, date_of_le (show 10 ≤ r.month by omega), hmonth, date_of_lt Nat.ofNat_pos,
    Nat.cast_add, ← Int.add_assoc]
  rfl

/-- After each day comes the next one. -/
theorem exists_next (h : r.Valid) :
    ∃ r' : Reckoned, r'.Valid ∧ r'.number = r.number + 1 ∧ r'.date = r.date.next := by
  obtain ⟨hyear, hmonth, hday⟩ := h
  by_cases hwithin : r.day + 1 < r.monthLength
  · refine ⟨{ r with day := r.day + 1 }, ⟨hyear, hmonth, hwithin⟩, ?_, (next_within hwithin).symm⟩
    simp only [number]
    omega
  have hend : r.day + 1 = r.monthLength := by omega
  by_cases hinner : r.month < 11
  · have hlength := hend.trans (monthLength_of_lt hinner)
    refine ⟨⟨r.era, r.year, r.month + 1, 0⟩, valid_first hyear (by omega) _, ?_,
      (next_month hinner hend).symm⟩
    simp only [number, daysFromMarch] at hlength ⊢
    omega
  have hlast : r.month = 11 := by omega
  have hlength := hend.trans (monthLength_last hlast)
  have hdays := daysInYear_eq hyear
  by_cases hsame : r.year < 399
  · refine ⟨⟨r.era, r.year + 1, 0, 0⟩, valid_first (by omega) (by decide) _, ?_,
      (next_year hlast hend).symm⟩
    simp only [number, daysBeforeYear_succ hsame, hlast, daysFromMarch]
    split at hdays <;> omega
  · have hfinal : r.year = 399 := by omega
    rw [hfinal] at hdays hlength
    refine ⟨⟨r.era + 1, 0, 0, 0⟩, valid_first (by decide) (by decide) _, ?_, ?_⟩
    · simp only [number, hlast, hfinal, daysBeforeYear, daysFromMarch]
      split at hdays <;> omega
    · have hcentury : (r.era + 1) * 400 + (0 : Nat) = r.era * 400 + (399 + 1 : Nat) := by omega
      rw [next_year hlast hend, hfinal]
      exact congrArg (Date.mk · 3 1) hcentury

end Reckoned

/-- The date of the next day is the next date. -/
theorem ofDays_succ (n : Int) : ofDays (n + 1) = (ofDays n).next := by
  obtain ⟨r, h, rfl, hdate⟩ := exists_reckoned n
  obtain ⟨r', h', hnumber, hnext⟩ := Reckoned.exists_next h
  rw [← hnumber, ofDays_number h', hnext, hdate]

/-- Months are counted from 1 to 12, and days from 1 to the length of their month. -/
theorem bounds_ofDays (n : Int) :
    let d := ofDays n
    (1 ≤ d.month ∧ d.month ≤ 12) ∧ 1 ≤ d.day ∧ d.day ≤ daysInMonth d.year d.month := by
  intro d
  obtain ⟨r, h, -, hdate⟩ := exists_reckoned n
  have hd : d = r.date := hdate
  have hmonth := h.month
  rw [hd]
  refine ⟨?_, Nat.le_add_left 1 r.day, h.day⟩
  simp only [Reckoned.date]
  split <;> omega

/-- The order of dates. -/
def Before (d e : Date) : Prop :=
  d.year < e.year ∨ d.year = e.year ∧ (d.month < e.month ∨ d.month = e.month ∧ d.day < e.day)

theorem Before.trans {d e f : Date} (h : d.Before e) (h' : e.Before f) : d.Before f := by
  simp only [Before] at h h' ⊢
  omega

theorem before_next (d : Date) : d.Before d.next := by
  unfold next
  split
  · exact Or.inr ⟨rfl, Or.inr ⟨rfl, Nat.lt_succ_self _⟩⟩
  · split
    · exact Or.inr ⟨rfl, Or.inl (Nat.lt_succ_self _)⟩
    · exact Or.inl (Int.lt_succ _)

/-- Later days have later dates. -/
theorem before_ofDays {m n : Int} (h : m < n) : (ofDays m).Before (ofDays n) := by
  induction n, h using Int.leInduction with
  | base =>
    rw [ofDays_succ]
    exact before_next _
  | succ n _ ih =>
    rw [ofDays_succ]
    exact ih.trans (before_next _)

end RecordArchive.Date
