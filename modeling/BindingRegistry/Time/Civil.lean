/-!
Dates of the Gregorian calendar, carried on before its introduction and into
years before the first, and their count of days from 1970-01-01. Years run
from March to February in the count, so the leap day is the last of its year.
-/
namespace BindingRegistry.Time

structure Civil where
  year : Int
  month : Nat
  day : Nat
  deriving DecidableEq, Repr

def isLeap (year : Int) : Bool := year % 4 = 0 && (year % 100 ≠ 0 || year % 400 = 0)

def monthLength (year : Int) (month : Nat) : Nat :=
  if month = 2 then (if isLeap year then 29 else 28)
  else if month = 4 || month = 6 || month = 9 || month = 11 then 30
  else 31

def firstYear : Int := -262143
def lastYear : Int := 262142

namespace Civil

/-- Whether the date exists and its year is in the supported range. -/
def isValid (d : Civil) : Bool :=
  firstYear ≤ d.year && d.year ≤ lastYear && 1 ≤ d.month && d.month ≤ 12 && 1 ≤ d.day &&
    d.day ≤ monthLength d.year d.month

/-- Days from March 1st to the first of a month, the months counted from March. -/
def daysBeforeMonth (fromMarch : Int) : Int := (153 * fromMarch + 2) / 5

/-- The number of days from 1970-01-01. -/
def dayNumber (d : Civil) : Int :=
  let y := if d.month ≤ 2 then d.year - 1 else d.year
  let fromMarch : Int := (d.month + 9) % 12
  let era := y / 400
  let yearOfEra := y % 400
  let dayOfYear := daysBeforeMonth fromMarch + d.day - 1
  era * 146097 + yearOfEra * 365 + yearOfEra / 4 - yearOfEra / 100 + dayOfYear - 719468

/-- The date with a given number of days from 1970-01-01. -/
def ofDayNumber (n : Int) : Civil :=
  let z := n + 719468
  let era := z / 146097
  let dayOfEra := z % 146097
  let yearOfEra := (dayOfEra - dayOfEra / 1460 + dayOfEra / 36524 - dayOfEra / 146096) / 365
  let dayOfYear := dayOfEra - (365 * yearOfEra + yearOfEra / 4 - yearOfEra / 100)
  let fromMarch := (5 * dayOfYear + 2) / 153
  let month := if fromMarch < 10 then fromMarch + 3 else fromMarch - 9
  let year := yearOfEra + era * 400 + (if month ≤ 2 then 1 else 0)
  ⟨year, month.toNat, (dayOfYear - daysBeforeMonth fromMarch + 1).toNat⟩

end Civil

/-- The weekday of a day number, Monday being zero. -/
def weekdayOf (dayNumber : Int) : Nat := ((dayNumber + 3) % 7).toNat

end BindingRegistry.Time
