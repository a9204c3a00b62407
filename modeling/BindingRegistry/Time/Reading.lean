import BindingRegistry.Json.Value
import BindingRegistry.Number.Signed
import BindingRegistry.Time.Layout

/-!
Times in the forms callers send them.
A number is milliseconds from the epoch, kept to the whole second. A text is
milliseconds in digits or one of a list of layouts, tried in order. Layouts
that end in a letter zone take its name for universal time, whatever it is.
-/
namespace BindingRegistry.Time

/-- The offset of the strict form: a letter, or hours and minutes parted by one colon. -/
def strictOffset : OffsetRule := ⟨false, false, true, false⟩

/-- The offset of numeric zones: never a letter. -/
def numericOffset : OffsetRule := ⟨true, false, false, true⟩

/-- The offset of the relaxed form: a word, a letter or a number. -/
def relaxedOffset : OffsetRule := ⟨true, true, true, true⟩

/-- Fixed-width fields, a fraction of any length, and an offset. -/
def strictItems : List Item := [
  .digits .year 4, .literal '-', .digits .month 2, .literal '-', .digits .day 2,
  .oneOf ['T', 't', ' '],
  .digits .hour 2, .literal ':', .digits .minute 2, .literal ':', .digits .second 2,
  .fraction, .offset strictOffset]

/-- The strict form with blanks between the parts, short fields and other spellings of the
offset. -/
def relaxedItems : List Item := [
  .signedYear, .blank, .literal '-', .number .month 2, .blank, .literal '-', .number .day 2,
  .oneOf ['T', 't', ' '],
  .number .hour 2, .blank, .literal ':', .number .minute 2, .blank, .literal ':',
  .number .second 2, .fraction, .blank, .offset relaxedOffset, .blank]

def readRelaxed (s : String) : Except Fault Instant := parseItems {} relaxedItems s.toList

def clock : List Item :=
  [.number .hour 2, .literal ':', .number .minute 2, .literal ':', .number .second 2]

structure Layout where
  items : List Item
  start : Fields := {}
  /-- The place, counted from the last word, of a zone name that is read as universal time. -/
  zone : Option Nat := none

def longDate : List Item :=
  [.weekdayName false, .blank, .monthName, .blank, .number .day 2, .blank] ++ clock ++
    [.blank, .signedYear]

def offsetDate : List Item :=
  [.weekdayName false, .blank, .monthName, .blank, .number .day 2, .blank] ++ clock ++
    [.blank, .offset numericOffset, .blank, .signedYear]

def shortDate : List Item :=
  [.number .day 2, .blank, .monthName, .blank, .number .shortYear 2, .blank,
    .number .hour 2, .literal ':', .number .minute 2]

/-- Full weekday, then day, month and two-digit year joined by dashes. -/
def dashedDate : List Item :=
  [.weekdayName true, .literal ',', .blank, .number .day 2, .literal '-', .monthName,
    .literal '-', .number .shortYear 2, .blank] ++ clock

def commaDate : List Item :=
  [.weekdayName false, .literal ',', .blank, .number .day 2, .blank, .monthName, .blank,
    .signedYear, .blank] ++ clock

/-- Month, day and clock; the year is zero. -/
def stamp (fraction : List Item) : Layout where
  items := [.monthName, .blank, .number .day 2, .blank] ++ clock ++ fraction
  start := { year := some 0 }

/-- Three numbers parted by `mark`, at midnight. -/
def plainDate (mark : Char) (middle last : Field) : Layout where
  items := [.signedYear, .literal mark, .number middle 2, .literal mark, .number last 2]
  start := { hour := some 0, minute := some 0 }

/-- The layouts in the order they are tried. -/
def layouts : List Layout := [
  { items := strictItems },
  { items := longDate },
  { items := longDate, zone := some 1 },
  { items := offsetDate },
  { items := shortDate, zone := some 0 },
  { items := shortDate ++ [.blank, .offset numericOffset] },
  { items := dashedDate, zone := some 0 },
  { items := commaDate, zone := some 0 },
  { items := commaDate ++ [.blank, .offset numericOffset] },
  { items := [.number .hour12 2, .literal ':', .number .minute 2, .meridiem],
    start := { year := some 0, month := some 1, day := some 1 } },
  stamp [], stamp [.exactFraction 3], stamp [.exactFraction 6], stamp [.exactFraction 9],
  plainDate '-' .month .day, plainDate '.' .month .day, plainDate '/' .day .month]

/-- The words joined by single blanks, without the one `place` words before the last, if that
one consists of capital letters. -/
def withoutZone? (place : Nat) (cs : List Char) : Option (List Char) :=
  let words := Text.words cs
  if words.length ≤ place then none
  else
    let i := words.length - 1 - place
    if (words[i]?.getD []).all Char.isUpper then
      some (List.intercalate [' '] (words.eraseIdx i))
    else none

def Layout.read? (l : Layout) (cs : List Char) : Option Instant :=
  match l.zone with
  | none => (parseItems l.start l.items cs).toOption
  | some place => do
    let cs ← withoutZone? place cs
    (parseItems l.start l.items cs).toOption

inductive TimeError where
  | unknownFormat (text : String)
  | outOfRange (millis : Int)
  | unsupported (kind : ValueKind)
  deriving DecidableEq, Repr

def TimeError.message : TimeError → String
  | .unknownFormat s => "no suitable time format identified: " ++ s
  | .outOfRange ms => "timestamp " ++ Decimal.intText ms ++ " ms is out of range"
  | .unsupported k => "cannot convert " ++ k.text ++ " to a timestamp"

/-- Milliseconds from the epoch, cut off to whole seconds toward the epoch. -/
def ofMillis (ms : Int) : Except TimeError Instant :=
  let t : Instant := ⟨ms.tdiv 1000, 0⟩
  if t.inRange then .ok t else .error (.outOfRange ms)

/-- A whole number as signed 64-bit milliseconds; beyond that range it goes through the nearest
binary value and is clamped. -/
def millisOfInteger (n : Int) : Int :=
  if n ≤ Width.i64.greatest then n
  else (Binary.ofInt n : Binary64).clampTo Width.i64.least Width.i64.greatest

/-- The time a text stands for, its surrounding blanks aside. -/
def ofText (s : String) : Except TimeError Instant :=
  let cs := Text.trimChars s.toList
  match Signed.read cs with
  | .ok ms => ofMillis ms
  | .error _ =>
    match layouts.findSome? (·.read? cs) with
    | some t => .ok t
    | none => .error (.unknownFormat (String.ofList cs))

def ofValue (v : Value) : Except TimeError Instant :=
  match v with
  | .integer n => ofMillis (millisOfInteger n)
  | .float x => ofMillis (x.clampTo Width.i64.least Width.i64.greatest)
  | .string s => ofText s
  | v => .error (.unsupported v.kind)

end BindingRegistry.Time
