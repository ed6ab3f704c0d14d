import Bourse.Time.Calendar
import Mathlib.Tactic.SplitIfs

/-!
# The Calendar and Back

A day number and its date say the same. A day within an era of 400 years is a century, four
years within it, a year within those and a day within the year, and all centuries and groups
of four years but the last are of one length. The days over are the leap days: the 366th day
of a year that starts in March exists only in a year that is the last of its four, and at the
end of a century only in the last of the era.

## Main definitions

* `Date.EraDay`: a day of an era by century, group of four years, year and day.

## Theorems

* `EraDay.exists_of_lt`: every day of an era is one.
* `ofDays_eq`: the date of a day by its parts.
* `isValid_ofDays`: the date of a day exists.
* `toDays_ofDays`: the day of the date of a day is that day.
-/

namespace Bourse.Date

/-- A day of an era of 400 years by its parts: the century, the group of four years in it, the
year in that, which starts in March, and the day in the year. -/
structure EraDay where
  century : Nat
  four : Nat
  year : Nat
  day : Nat
  century_le : century ≤ 3
  four_le : four ≤ 24
  year_le : year ≤ 3
  day_le : day ≤ 365
  /-- The last day of the longest years is the day before the first of March of a leap year. -/
  leap : day = 365 → year = 3 ∧ (four = 24 → century = 3)

namespace EraDay

variable (e : EraDay)

/-- The number of the day in the era. -/
def number : Nat := 36524 * e.century + 1461 * e.four + 365 * e.year + e.day

/-- The number of the year in the era. -/
def yearOfEra : Nat := 100 * e.century + 4 * e.four + e.year

theorem exists_of_lt {n : Nat} (h : n < 146097) : ∃ e : EraDay, e.number = n := by
  -- The last day of the last century and that of the last year are counted in, not on.
  rcases Nat.lt_or_ge (n / 36524) 4 with hc | hc
  · rcases Nat.lt_or_ge (n % 36524 % 1461 / 365) 4 with hy | hy
    · exact ⟨⟨n / 36524, n % 36524 / 1461, n % 36524 % 1461 / 365, n % 36524 % 1461 % 365,
        by omega, by omega, by omega, by omega, by omega⟩, by simp only [number]; omega⟩
    · exact ⟨⟨n / 36524, n % 36524 / 1461, 3, 365, by omega, by omega, by omega, by omega,
        fun _ => ⟨rfl, by omega⟩⟩, by simp only [number]; omega⟩
  · exact ⟨⟨3, 24, 3, 365, by omega, by omega, by omega, by omega, fun _ => ⟨rfl, fun _ => rfl⟩⟩,
      by simp only [number]; omega⟩

theorem number_lt : e.number < 146097 := by
  have := e.century_le
  have := e.four_le
  have := e.year_le
  have := e.day_le
  rw [number]
  rcases Nat.lt_or_ge e.day 365 with h | h
  · omega
  · have := e.leap (by omega)
    omega

theorem yearOfEra_lt : e.yearOfEra < 400 := by
  have := e.century_le
  have := e.four_le
  have := e.year_le
  rw [yearOfEra]
  omega

/-- The years before this one have so many days, leap days and all. -/
theorem number_eq : e.number =
    365 * e.yearOfEra + e.yearOfEra / 4 - e.yearOfEra / 100 + e.day := by
  have := e.century_le
  have := e.four_le
  have := e.year_le
  have hfour : e.yearOfEra / 4 = 25 * e.century + e.four := by
    rw [yearOfEra]
    omega
  have hcentury : e.yearOfEra / 100 = e.century := by
    rw [yearOfEra]
    omega
  rw [hfour, hcentury, yearOfEra, number]
  omega

/-- There are as many leap days before a day as quotients count, or one fewer on the days at
the end of a year that has one. -/
theorem number_div_leap : e.number / 1460 = 25 * e.century + e.four +
    if 1460 ≤ 24 * e.century + e.four + 365 * e.year + e.day then 1 else 0 := by
  have := e.century_le
  have := e.four_le
  have := e.year_le
  have := e.day_le
  rw [number]
  split_ifs <;> omega

/-- Quotients count the centuries before a day, but on the last day of an era one too many. -/
theorem number_div_century :
    e.number / 36524 = e.century + e.number / 146096 ∧ e.number / 146096 ≤ 1 := by
  have := e.century_le
  have := e.four_le
  have := e.year_le
  have := e.day_le
  have hleap := e.leap
  -- A century ends a day early, unless it is the last.
  have hwithin : 1461 * e.four + 365 * e.year + e.day < 36524 ∨
      e.century = 3 ∧ 1461 * e.four + 365 * e.year + e.day = 36524 := by
    omega
  rw [number]
  rcases hwithin with hwithin | ⟨hc, hwithin⟩
  · have hlast : (36524 * e.century + 1461 * e.four + 365 * e.year + e.day) / 146096 = 0 := by
      omega
    omega
  · omega

/-- The year of a day, by taking away the leap days before it. -/
theorem yearOfEra_eq : e.yearOfEra =
    (e.number - e.number / 1460 + e.number / 36524 - e.number / 146096) / 365 := by
  have := e.century_le
  have := e.four_le
  have := e.year_le
  have := e.day_le
  have hleap := e.leap
  rcases e.number_div_century with ⟨hcentury, hlast⟩
  rw [hcentury, e.number_div_leap]
  have hdays : e.number - (25 * e.century + e.four +
      if 1460 ≤ 24 * e.century + e.four + 365 * e.year + e.day then 1 else 0) +
        (e.century + e.number / 146096) - e.number / 146096 = 365 * e.yearOfEra + (e.day -
          if 1460 ≤ 24 * e.century + e.four + 365 * e.year + e.day then 1 else 0) := by
    generalize e.number / 146096 = last
    rw [number, yearOfEra]
    split_ifs <;> omega
  rw [hdays]
  have hrest : e.day -
      (if 1460 ≤ 24 * e.century + e.four + 365 * e.year + e.day then 1 else 0) < 365 := by
    split_ifs <;> omega
  omega

/-! ## Months -/

/-- The month of a day, where March is zero. -/
def shifted : Nat := (5 * e.day + 2) / 153

theorem shifted_le : e.shifted ≤ 11 := by
  have := e.day_le
  rw [shifted]
  omega

/-- The day of the month. -/
def dayOfMonth : Nat := e.day - (153 * e.shifted + 2) / 5 + 1

/-- The months before this one have so many days. -/
theorem day_eq : (153 * e.shifted + 2) / 5 + e.dayOfMonth - 1 = e.day := by
  rw [dayOfMonth, shifted]
  omega

/-- The month of a day, where January is one. -/
def month : Nat := if e.shifted < 10 then e.shifted + 3 else e.shifted - 9

theorem month_le_two_iff : e.month ≤ 2 ↔ 10 ≤ e.shifted := by
  have := e.shifted_le
  rw [month]
  split_ifs <;> omega

theorem shifted_eq : (if 2 < e.month then e.month - 3 else e.month + 9) = e.shifted := by
  have := e.shifted_le
  rw [month]
  split_ifs <;> omega

/-- The year a day falls in, counted from January. -/
def calendarYear (era : Int) : Int :=
  if e.month ≤ 2 then (e.yearOfEra : Int) + era * 400 + 1 else (e.yearOfEra : Int) + era * 400

/-- The 366th day is in February of a leap year. -/
theorem isLeapYear_of_day {era : Int} (h : e.day = 365) :
    isLeapYear (e.calendarYear era) = true := by
  have := e.century_le
  have := e.four_le
  rcases e.leap h with ⟨hyear, hcentury⟩
  have hmonth : e.month ≤ 2 := by
    rw [month_le_two_iff, shifted]
    omega
  rw [calendarYear, if_pos hmonth, yearOfEra, hyear, isLeapYear, Bool.and_eq_true,
    Bool.or_eq_true, decide_eq_true_iff, decide_eq_true_iff, decide_eq_true_iff]
  omega

/-- A month has all its days. -/
theorem dayOfMonth_le (era : Int) : e.dayOfMonth ≤ daysIn (e.calendarYear era) e.month := by
  have hday := e.day_le
  have hleap : e.day = 365 → isLeapYear (e.calendarYear era) = true := e.isLeapYear_of_day
  have hle := e.shifted_le
  rw [daysIn, dayOfMonth, month]
  rw [shifted] at hle ⊢
  by_cases hlast : e.day = 365
  · rw [hleap hlast, hlast]
    decide
  · split_ifs <;> omega

end EraDay

/-! ## Days and their dates -/

/-- The day of an era of 400 years, counted from the first of March of the year 0. -/
def onDay (era : Int) (e : EraDay) : Int := era * 146097 + e.number - 719468

theorem exists_onDay (days : Int) : ∃ era e, days = onDay era e := by
  rcases EraDay.exists_of_lt (n := ((days + 719468) % 146097).toNat) (by omega) with ⟨e, he⟩
  refine ⟨(days + 719468) / 146097, e, ?_⟩
  rw [onDay, he]
  omega

/-- The date of a day by its parts. -/
theorem ofDays_onDay (era : Int) (e : EraDay) :
    ofDays (onDay era e) = ⟨e.calendarYear era, e.month, e.dayOfMonth⟩ := by
  have hlt := e.number_lt
  have hera : (onDay era e + 719468) / 146097 = era := by
    rw [onDay]
    omega
  have hnumber : ((onDay era e + 719468) % 146097).toNat = e.number := by
    rw [onDay]
    omega
  have hday : e.number - (365 * e.yearOfEra + e.yearOfEra / 4 - e.yearOfEra / 100) = e.day := by
    have := e.number_eq
    omega
  rw [ofDays]
  simp only [hera, hnumber, ← e.yearOfEra_eq, hday]
  rfl

/-- The day of a date by its parts. -/
theorem toDays_onDay (era : Int) (e : EraDay) :
    toDays ⟨e.calendarYear era, e.month, e.dayOfMonth⟩ = onDay era e := by
  have hlt := e.yearOfEra_lt
  have hyear : (if e.month ≤ 2 then e.calendarYear era - 1 else e.calendarYear era) =
      (e.yearOfEra : Int) + era * 400 := by
    rw [EraDay.calendarYear]
    split_ifs <;> omega
  have hera : ((e.yearOfEra : Int) + era * 400) / 400 = era := by omega
  have hrest : (((e.yearOfEra : Int) + era * 400) % 400).toNat = e.yearOfEra := by omega
  rw [toDays]
  simp only [hyear, hera, hrest, e.shifted_eq, e.day_eq]
  rw [onDay, e.number_eq, Nat.mul_comm e.yearOfEra 365]

/-- The day of the date of a day is that day. -/
theorem toDays_ofDays (days : Int) : (ofDays days).toDays = days := by
  rcases exists_onDay days with ⟨era, e, rfl⟩
  rw [ofDays_onDay, toDays_onDay]

/-- The date of a day exists. -/
theorem isValid_ofDays (days : Int) : (ofDays days).isValid = true := by
  rcases exists_onDay days with ⟨era, e, rfl⟩
  have hle := e.shifted_le
  have hday := e.dayOfMonth_le era
  have hmonth : 1 ≤ e.month ∧ e.month ≤ 12 := by
    rw [EraDay.month]
    split_ifs <;> omega
  rw [ofDays_onDay]
  simp only [isValid, Bool.and_eq_true, decide_eq_true_eq]
  exact ⟨⟨hmonth, Nat.succ_pos _⟩, hday⟩

/-- A date has at most two digits for the month and two for the day. -/
theorem ofDays_lt (days : Int) : (ofDays days).month < 100 ∧ (ofDays days).day < 100 := by
  rcases exists_onDay days with ⟨era, e, rfl⟩
  have hday := e.day_le
  have hle := e.shifted_le
  rw [ofDays_onDay]
  refine ⟨?_, ?_⟩
  · dsimp only
    rw [EraDay.month]
    split_ifs <;> omega
  · dsimp only
    rw [EraDay.dayOfMonth, EraDay.shifted]
    omega

end Bourse.Date
