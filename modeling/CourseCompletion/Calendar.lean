/-!
# The calendar

Dates of the Gregorian calendar, carried on without end in both directions, and the number of
days from 1970-01-01 to a date.

* `Date.Exists`        the month and the day are ones that the calendar has;
* `Date.dayNumber`     days from 1970-01-01 to the date;
* `Date.ofDayNumber`   the date on that day.

Both directions count from the first of March of the year 0, so that a leap day is the last of
its year, and in cycles of 400 years, which all have `146097` days.
-/

namespace CourseCompletion

structure Date where
  year : Int
  month : Nat
  day : Nat
deriving DecidableEq

/-- a year with a 29th of February -/
def isLeapYear (year : Int) : Bool :=
  year % 4 = 0 ∧ (year % 100 ≠ 0 ∨ year % 400 = 0)

def daysInMonth (year : Int) (month : Nat) : Nat :=
  if month = 2 then (if isLeapYear year then 29 else 28)
  else if month = 4 ∨ month = 6 ∨ month = 9 ∨ month = 11 then 30
  else 31

namespace Date

/-- the calendar has this month and this day in it -/
def Exists (d : Date) : Prop :=
  1 ≤ d.month ∧ d.month ≤ 12 ∧ 1 ≤ d.day ∧ d.day ≤ daysInMonth d.year d.month

instance (d : Date) : Decidable d.Exists := by unfold Exists; infer_instance

/-- days from the first of March to the first day of a month, March being the month `0` -/
def daysBefore (month : Nat) : Nat := (153 * month + 2) / 5

/-- days from 1970-01-01 to a date -/
def dayNumber (d : Date) : Int :=
  let year := if d.month ≤ 2 then d.year - 1 else d.year
  let inCycle := year % 400
  let inYear := daysBefore ((d.month + 9) % 12) + d.day - 1
  year / 400 * 146097 + (inCycle * 365 + inCycle / 4 - inCycle / 100 + inYear) - 719468

/-- the date so many days after 1970-01-01 -/
def ofDayNumber (days : Int) : Date :=
  let z := days + 719468
  let inCycle := (z % 146097).toNat
  let year := (inCycle - inCycle / 1460 + inCycle / 36524 - inCycle / 146096) / 365
  let inYear := inCycle - (365 * year + year / 4 - year / 100)
  let month := (5 * inYear + 2) / 153
  { year := z / 146097 * 400 + year + (if month < 10 then 0 else 1)
    month := if month < 10 then month + 3 else month - 9
    day := inYear - daysBefore month + 1 }

example : (⟨1970, 1, 1⟩ : Date).dayNumber = 0 := by decide
example : ofDayNumber 0 = ⟨1970, 1, 1⟩ := by decide
example : ofDayNumber (-1) = ⟨1969, 12, 31⟩ := by decide
example : (⟨2000, 2, 29⟩ : Date).dayNumber = 11016 := by decide
example : ofDayNumber 11016 = ⟨2000, 2, 29⟩ := by decide

end Date

end CourseCompletion
