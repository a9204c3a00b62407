import BindingRegistry.Number.Decimal
import BindingRegistry.Time.Civil

/-!
Points in time: seconds from 1970-01-01T00:00:00Z and nanoseconds within the
second. Inside a leap second the nanoseconds run on from one thousand million.
The text of an instant has the fewest of zero, three, six or nine places that
are exact.
-/
namespace BindingRegistry.Time

def secondsPerDay : Int := 86400
def nanosPerSecond : Nat := 1000000000

structure Instant where
  seconds : Int
  nanos : Nat
  deriving DecidableEq, Repr, Inhabited

/-- The bounds of the supported range: the first and the last second of its years. -/
def firstSecond : Int := (⟨firstYear, 1, 1⟩ : Civil).dayNumber * secondsPerDay
def lastSecond : Int := (⟨lastYear, 12, 31⟩ : Civil).dayNumber * secondsPerDay + 86399

namespace Instant

def epoch : Instant := ⟨0, 0⟩

def inRange (t : Instant) : Bool := firstSecond ≤ t.seconds && t.seconds ≤ lastSecond

def date (t : Instant) : Civil := .ofDayNumber (t.seconds / secondsPerDay)

def secondOfDay (t : Instant) : Nat := (t.seconds % secondsPerDay).toNat

/-- Milliseconds from the epoch, the nanoseconds cut off to whole milliseconds. -/
def millis (t : Instant) : Int := t.seconds * 1000 + (t.nanos / 1000000 : Nat)

end Instant

/-- Four digits, or a sign and at least four digits outside the years 0 to 9999. -/
def yearText (year : Int) : List Char :=
  let digits := Decimal.padded 4 year.natAbs
  if 0 ≤ year && year ≤ 9999 then digits else (if year < 0 then '-' else '+') :: digits

/-- The fraction of a second with the fewest exact places in groups of three. -/
def fractionText (nanos : Nat) : List Char :=
  if nanos = 0 then []
  else if nanos % 1000000 = 0 then '.' :: Decimal.padded 3 (nanos / 1000000)
  else if nanos % 1000 = 0 then '.' :: Decimal.padded 6 (nanos / 1000)
  else '.' :: Decimal.padded 9 nanos

/-- The text of an instant: date, time of day, fraction and the mark of universal time. -/
def Instant.chars (t : Instant) : List Char :=
  let d := t.date
  let s := t.secondOfDay
  let leap := nanosPerSecond ≤ t.nanos
  let second := if leap then s % 60 + 1 else s % 60
  let nanos := if leap then t.nanos - nanosPerSecond else t.nanos
  let two := Decimal.padded 2
  yearText d.year ++ '-' :: two d.month ++ '-' :: two d.day ++
    'T' :: two (s / 3600) ++ ':' :: two (s / 60 % 60) ++ ':' :: two second ++
    fractionText nanos ++ ['Z']

def Instant.text (t : Instant) : String := String.ofList t.chars

end BindingRegistry.Time
