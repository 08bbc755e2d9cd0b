import Mathlib.Algebra.Order.Ring.Int
import Mathlib.Tactic.Common

/-!
# The Civil Calendar

Days counted from an epoch, and the date that each of them has in the Gregorian calendar
extended over all years.

The year is taken to begin on the first of March. The leap day is then the last day of a
year, so the days before a month do not depend on the year, and the days before a year are
one formula. Both directions are arithmetic over the integers, and a date may be denormalised
on the way to a day: a month outside of the year and a day outside of the month are counted
on, as the conversions of C libraries do.

## Main definitions

* `Date`, `toDays`: the day of a date, which need not be normalised.
* `ofDays`: the date of a day.

## Theorems

* `toDays_ofDays`: the date of a day is a date of that day.
* `month_ofDays`, `day_ofDays`: it is normalised.
* `toDays_addDays`: days of a date count on.
-/

namespace Calendar

/-- A date. The month is 1 for January; neither it nor the day has to be in range. -/
structure Date where
  year : Int
  month : Int
  day : Int
deriving DecidableEq, Repr

/-- The days from the first of March of year 0 to the first of March of `year`. -/
def daysBeforeYear (year : Int) : Int := 365 * year + year / 4 - year / 100 + year / 400

/-- The days from the first of March to the first day of the month that is `month` months
    later, for the twelve months of a year. -/
def daysBeforeMonth (month : Int) : Int := (153 * month + 2) / 5

/-- The day number of the first of January 1970, counted from the first of March of year
    0. -/
def epochDay : Int := 719468

/-- The day of a date, counted from the first of January 1970. -/
def toDays (date : Date) : Int :=
  let months := date.month - 3
  daysBeforeYear (date.year + months / 12) + daysBeforeMonth (months % 12) + (date.day - 1) -
    epochDay

/-- The year since the last multiple of 400 in which day `day` of the 400 years lies. The last
    century has a day more than the others, as has the last year of four. -/
def yearOfEra (day : Int) : Int :=
  let century := min (day / 36524) 3
  let rest := day - 36524 * century
  100 * century + 4 * (rest / 1461) + min (rest % 1461 / 365) 3

/-- The month in which a day of the year lies. -/
def monthOfYear (day : Int) : Int := (5 * day + 2) / 153

/-- The date of a day. -/
def ofDays (days : Int) : Date :=
  let shifted := days + epochDay
  let day := shifted % 146097
  let year := yearOfEra day
  let dayOfYear := day - (365 * year + year / 4 - year / 100)
  let month := monthOfYear dayOfYear
  { year := 400 * (shifted / 146097) + year + if month < 10 then 0 else 1
    month := if month < 10 then month + 3 else month - 9
    day := dayOfYear - daysBeforeMonth month + 1 }

/-- A day of 400 years lies in one of them. -/
theorem yearOfEra_bounds (day : Int) (h₀ : 0 ≤ day) (h₁ : day < 146097) :
    0 ≤ yearOfEra day ∧ yearOfEra day < 400 ∧
      0 ≤ day - (365 * yearOfEra day + yearOfEra day / 4 - yearOfEra day / 100) ∧
      day - (365 * yearOfEra day + yearOfEra day / 4 - yearOfEra day / 100) < 366 := by
  unfold yearOfEra
  dsimp only
  have hcentury : 0 ≤ min (day / 36524) 3 ∧ min (day / 36524) 3 ≤ 3 ∧
      0 ≤ day - 36524 * min (day / 36524) 3 ∧ day - 36524 * min (day / 36524) 3 ≤ 36524 := by
    omega
  generalize min (day / 36524) 3 = century at *
  generalize hrest : day - 36524 * century = rest at *
  have hfour : 0 ≤ rest / 1461 ∧ rest / 1461 ≤ 24 := by omega
  have hone : 0 ≤ min (rest % 1461 / 365) 3 ∧ min (rest % 1461 / 365) 3 ≤ 3 ∧
      0 ≤ rest % 1461 - 365 * min (rest % 1461 / 365) 3 ∧
      rest % 1461 - 365 * min (rest % 1461 / 365) 3 ≤ 365 := by omega
  generalize min (rest % 1461 / 365) 3 = year at *
  have hleap : (100 * century + 4 * (rest / 1461) + year) / 4 = 25 * century + rest / 1461 := by
    omega
  have hcenturies : (100 * century + 4 * (rest / 1461) + year) / 100 = century := by omega
  rw [hleap, hcenturies]
  omega

/-- A day of a year lies in one of its months. -/
theorem monthOfYear_bounds (day : Int) (h₀ : 0 ≤ day) (h₁ : day < 366) :
    0 ≤ monthOfYear day ∧ monthOfYear day < 12 ∧
      0 ≤ day - daysBeforeMonth (monthOfYear day) ∧
      day - daysBeforeMonth (monthOfYear day) < 31 := by
  unfold monthOfYear daysBeforeMonth
  omega

/-- The days before a year repeat after 400 years. -/
theorem daysBeforeYear_era (era year : Int) (h₀ : 0 ≤ year) (h₁ : year < 400) :
    daysBeforeYear (400 * era + year) = 146097 * era + (365 * year + year / 4 - year / 100) := by
  unfold daysBeforeYear
  omega

/-- The date of a day is a date of that day. -/
theorem toDays_ofDays (days : Int) : toDays (ofDays days) = days := by
  have hday₀ : 0 ≤ (days + epochDay) % 146097 := by omega
  have hday₁ : (days + epochDay) % 146097 < 146097 := by omega
  have hsplit : 146097 * ((days + epochDay) / 146097) + (days + epochDay) % 146097 =
      days + epochDay := by omega
  unfold toDays ofDays
  dsimp only
  generalize (days + epochDay) / 146097 = era at *
  generalize (days + epochDay) % 146097 = day at *
  rcases yearOfEra_bounds day hday₀ hday₁ with ⟨hyear₀, hyear₁, hdoy₀, hdoy₁⟩
  have hera := daysBeforeYear_era era (yearOfEra day) hyear₀ hyear₁
  generalize yearOfEra day = year at *
  rcases monthOfYear_bounds _ hdoy₀ hdoy₁ with ⟨hmonth₀, hmonth₁, _, _⟩
  generalize monthOfYear _ = month at *
  by_cases hlate : month < 10
  · -- March to December
    have hmonths : (month + 3 - 3) / 12 = 0 ∧ (month + 3 - 3) % 12 = month := by omega
    simp only [if_pos hlate, hmonths, add_zero, hera]
    omega
  · -- January and February belong to the next calendar year
    have hmonths : (month - 9 - 3) / 12 = -1 ∧ (month - 9 - 3) % 12 = month := by omega
    simp only [if_neg hlate, hmonths]
    rw [show 400 * era + year + 1 + -1 = 400 * era + year by omega, hera]
    omega

/-- The month of a day is one of the year. -/
theorem month_ofDays (days : Int) : 1 ≤ (ofDays days).month ∧ (ofDays days).month ≤ 12 := by
  have hday₀ : 0 ≤ (days + epochDay) % 146097 := by omega
  have hday₁ : (days + epochDay) % 146097 < 146097 := by omega
  rcases yearOfEra_bounds _ hday₀ hday₁ with ⟨_, _, hdoy₀, hdoy₁⟩
  have hmonth := monthOfYear_bounds _ hdoy₀ hdoy₁
  unfold ofDays
  dsimp only
  split <;> omega

/-- The day of the month of a day fits into two digits, and is at least 1. -/
theorem day_ofDays (days : Int) : 1 ≤ (ofDays days).day ∧ (ofDays days).day ≤ 31 := by
  have hday₀ : 0 ≤ (days + epochDay) % 146097 := by omega
  have hday₁ : (days + epochDay) % 146097 < 146097 := by omega
  rcases yearOfEra_bounds _ hday₀ hday₁ with ⟨_, _, hdoy₀, hdoy₁⟩
  have hmonth := monthOfYear_bounds _ hdoy₀ hdoy₁
  unfold ofDays
  dsimp only
  omega

/-- Days of a date count on. -/
theorem toDays_addDays (date : Date) (days : Int) :
    toDays { date with day := date.day + days } = toDays date + days := by
  unfold toDays
  dsimp only
  omega

/-- The leap day of a year that 400 divides. -/
example : toDays ⟨2000, 2, 29⟩ + 1 = toDays ⟨2000, 3, 1⟩ := by decide

/-- No leap day in a year that 100 divides, and the months of the year before count on. -/
example : toDays ⟨1900, 2, 29⟩ = toDays ⟨1899, 15, 1⟩ := by decide

end Calendar
