import BindingRegistry.Text.Blank
import BindingRegistry.Time.Instant

/-!
Layouts of written times.
A layout is a list of items; matching it against a text collects the fields of
a time, left to right, and the first item that does not match decides the
fault. The whole text must be used up. A time is then resolved from its fields
and refused if they contradict each other or name no existing moment.
-/
namespace BindingRegistry.Time

inductive Fault where
  | tooShort
  | invalid
  | outOfRange
  | trailing
  | impossible
  | notEnough
  deriving DecidableEq, Repr

def Fault.message : Fault → String
  | .tooShort => "premature end of input"
  | .invalid => "input contains invalid characters"
  | .outOfRange => "input is out of range"
  | .trailing => "trailing input"
  | .impossible => "no possible date and time matching input"
  | .notEnough => "input is not enough for unique date and time"

inductive Field where
  | year | shortYear | month | day | hour | hour12 | minute | second
  deriving DecidableEq, Repr

def Field.least : Field → Int
  | .year => -2147483648
  | .shortYear | .hour | .minute | .second => 0
  | .month | .day | .hour12 => 1

def Field.greatest : Field → Int
  | .year => 2147483647
  | .shortYear => 99
  | .month => 12
  | .day => 31
  | .hour => 23
  | .hour12 => 12
  | .minute => 59
  | .second => 60

structure Fields where
  year : Option Int := none
  shortYear : Option Int := none
  month : Option Int := none
  day : Option Int := none
  hour : Option Int := none
  hour12 : Option Int := none
  minute : Option Int := none
  second : Option Int := none
  nanos : Option Nat := none
  weekday : Option Nat := none
  afternoon : Option Bool := none
  offset : Option Int := none

def Fields.set (fs : Fields) (f : Field) (n : Int) : Fields :=
  match f with
  | .year => { fs with year := some n }
  | .shortYear => { fs with shortYear := some n }
  | .month => { fs with month := some n }
  | .day => { fs with day := some n }
  | .hour => { fs with hour := some n }
  | .hour12 => { fs with hour12 := some n }
  | .minute => { fs with minute := some n }
  | .second => { fs with second := some n }

structure OffsetRule where
  blanks : Bool
  word : Bool
  letter : Bool
  /-- Whether any run of colons and blanks may part hours and minutes, instead of one colon. -/
  loose : Bool

inductive Item where
  | blank
  | literal (c : Char)
  | oneOf (cs : List Char)
  /-- One to `most` digits, after any blanks. -/
  | number (f : Field) (most : Nat)
  | digits (f : Field) (count : Nat)
  /-- After any blanks one to four digits, or a sign and any number of digits. -/
  | signedYear
  | monthName
  /-- The first three letters of a weekday; with `long` the rest may follow. -/
  | weekdayName (long : Bool)
  | meridiem
  /-- A point and digits, of which nine count, or nothing. -/
  | fraction
  /-- A point and exactly `places` digits, or nothing. -/
  | exactFraction (places : Nat)
  | offset (rule : OffsetRule)

abbrev Match := Except Fault (Fields × List Char)

def scanNumber (least most : Nat) (cs : List Char) : Except Fault (Nat × Nat × List Char) :=
  let ds := (cs.take most).takeWhile Decimal.isDigit
  if cs.length < least then .error .tooShort
  else if ds.length < least then .error .invalid
  else .ok (Decimal.value ds, ds.length, cs.drop ds.length)

def setField (fs : Fields) (f : Field) (n : Int) (rest : List Char) : Match :=
  if f.least ≤ n && n ≤ f.greatest then .ok (fs.set f n, rest) else .error .outOfRange

/-- Drops `word`, given in lower case, from the front if it is there in any case. -/
def dropWord? : (word cs : List Char) → Option (List Char)
  | [], cs => some cs
  | w :: ws, c :: cs => if c.toLower = w then dropWord? ws cs else none
  | _ :: _, [] => none

def monthNames : List String :=
  ["jan", "feb", "mar", "apr", "may", "jun", "jul", "aug", "sep", "oct", "nov", "dec"]

def weekdayNames : List (String × String) :=
  [("mon", "day"), ("tue", "sday"), ("wed", "nesday"), ("thu", "rsday"), ("fri", "day"),
    ("sat", "urday"), ("sun", "day")]

/-- The position of the name at the front of `cs`, counted from `i`, and the rest. -/
def findName (i : Nat) (cs : List Char) : List String → Option (Nat × List Char)
  | [] => none
  | name :: names =>
    match dropWord? name.toList cs with
    | some rest => some (i, rest)
    | none => findName (i + 1) cs names

def scanFraction (least most : Nat) (fs : Fields) (cs : List Char) : Match := do
  let (n, count, rest) ← scanNumber least most cs
  return ({ fs with nanos := some (n * tenTo (9 - count)) }, rest)

def byteCount (cs : List Char) : Nat := sumBy Char.utf8Size cs

/-- Two digits, read by their bytes. -/
def scanPair (cs : List Char) : Except Fault (Nat × List Char) :=
  if byteCount cs < 2 then .error .tooShort
  else match cs with
    | a :: b :: rest =>
      if Decimal.isDigit a && Decimal.isDigit b then .ok (Decimal.value [a, b], rest)
      else .error .invalid
    | _ => .error .invalid

/-- The sign of an offset; true for a minus. -/
def scanSign : List Char → Except Fault (Bool × List Char)
  | [] => .error .tooShort
  | c :: rest =>
    if c = '+' then .ok (false, rest)
    else if c = '-' || c = '\u2212' then .ok (true, rest)
    else .error .invalid

def scanColon (loose : Bool) (cs : List Char) : Except Fault (List Char) :=
  if loose then .ok (cs.dropWhile (fun c => c = ':' || Text.isBlank c))
  else match cs with
    | [] => .error .tooShort
    | c :: rest => if c = ':' then .ok rest else .error .invalid

def scanOffset (loose : Bool) (cs : List Char) : Except Fault (Int × List Char) := do
  let (negative, cs) ← scanSign cs
  let (hours, cs) ← scanPair cs
  let cs ← scanColon loose cs
  let (minutes, cs) ← scanPair cs
  if 60 ≤ minutes then throw .outOfRange
  return (Binary.signed negative (hours * 3600 + minutes * 60), cs)

def matchOffset (rule : OffsetRule) (fs : Fields) (cs : List Char) : Match :=
  let cs := if rule.blanks then cs.dropWhile Text.isBlank else cs
  let here (rest : List Char) : Match := .ok ({ fs with offset := some 0 }, rest)
  match (if rule.word then dropWord? ['u', 't', 'c'] cs else none) with
  | some rest => here rest
  | none =>
    match (if rule.letter then dropWord? ['z'] cs else none) with
    | some rest => here rest
    | none => do
      let (offset, rest) ← scanOffset rule.loose cs
      return ({ fs with offset := some offset }, rest)

def matchItem (item : Item) (fs : Fields) (cs : List Char) : Match :=
  match item with
  | .blank => .ok (fs, cs.dropWhile Text.isBlank)
  | .literal c =>
    match cs with
    | [] => .error .tooShort
    | c' :: rest => if c' = c then .ok (fs, rest) else .error .invalid
  | .oneOf choices =>
    match cs with
    | [] => .error .tooShort
    | c :: rest => if choices.contains c then .ok (fs, rest) else .error .invalid
  | .number f most => do
    let (n, _, rest) ← scanNumber 1 most (cs.dropWhile Text.isBlank)
    setField fs f n rest
  | .digits f count => do
    let (n, _, rest) ← scanNumber count count cs
    setField fs f n rest
  | .signedYear =>
    match cs.dropWhile Text.isBlank with
    | '-' :: rest => do
      let (n, _, rest) ← scanNumber 1 rest.length rest
      setField fs .year (-n) rest
    | '+' :: rest => do
      let (n, _, rest) ← scanNumber 1 rest.length rest
      setField fs .year n rest
    | cs => do
      let (n, _, rest) ← scanNumber 1 4 cs
      setField fs .year n rest
  | .monthName =>
    match findName 0 cs monthNames with
    | some (i, rest) => .ok (fs.set .month (i + 1), rest)
    | none => .error .invalid
  | .weekdayName long =>
    match findName 0 cs (weekdayNames.map (·.1)) with
    | none => .error .invalid
    | some (i, rest) =>
      let tail := (weekdayNames.map (·.2))[i]?.getD ""
      let rest := if long then (dropWord? tail.toList rest).getD rest else rest
      .ok ({ fs with weekday := some i }, rest)
  | .meridiem =>
    match findName 0 cs ["am", "pm"] with
    | some (i, rest) => .ok ({ fs with afternoon := some (i = 1) }, rest)
    | none => .error .invalid
  | .fraction =>
    match cs with
    | '.' :: rest => do
      let (fs, rest) ← scanFraction 1 9 fs rest
      return (fs, rest.dropWhile Decimal.isDigit)
    | cs => .ok (fs, cs)
  | .exactFraction places =>
    match cs with
    | '.' :: rest => scanFraction places places fs rest
    | cs => .ok (fs, cs)
  | .offset rule => matchOffset rule fs cs

def matchItems (fs : Fields) (cs : List Char) : List Item → Match
  | [] => .ok (fs, cs)
  | item :: items =>
    match matchItem item fs cs with
    | .ok (fs, cs) => matchItems fs cs items
    | .error e => .error e

/-- The date the fields name; a two-digit year below 70 is in the 21st century. -/
def Fields.date (fs : Fields) : Except Fault Civil := do
  let year ← match fs.year, fs.shortYear with
    | some y, _ => .ok y
    | none, some y => .ok (if y < 70 then y + 2000 else y + 1900)
    | none, none => .error .notEnough
  let some month := fs.month | .error .notEnough
  let some day := fs.day | .error .notEnough
  let d : Civil := ⟨year, month.toNat, day.toNat⟩
  if !d.isValid then throw .outOfRange
  match fs.weekday with
  | some w => if weekdayOf d.dayNumber = w then return d else throw .impossible
  | none => return d

/-- The second of the day and the nanoseconds; a sixtieth second is a leap second. -/
def Fields.time (fs : Fields) : Except Fault (Int × Nat) := do
  let hour ← match fs.hour, fs.hour12, fs.afternoon with
    | some h, _, _ => .ok h
    | none, some h, some pm => .ok (h % 12 + (if pm then 12 else 0))
    | _, _, _ => .error .notEnough
  let some minute := fs.minute | .error .notEnough
  let second := fs.second.getD 0
  let nanos := fs.nanos.getD 0
  if second = 60 then return (hour * 3600 + minute * 60 + 59, nanos + nanosPerSecond)
  else return (hour * 3600 + minute * 60 + second, nanos)

def Fields.resolve (fs : Fields) : Except Fault Instant := do
  let d ← fs.date
  let (second, nanos) ← fs.time
  let offset := fs.offset.getD 0
  if secondsPerDay ≤ offset.natAbs then throw .outOfRange
  let t : Instant := ⟨d.dayNumber * secondsPerDay + second - offset, nanos⟩
  if t.inRange then return t else throw .impossible

/-- The moment a text names in the layout of `items`, beside what is known from the start. -/
def parseItems (start : Fields) (items : List Item) (cs : List Char) : Except Fault Instant := do
  let (fs, rest) ← matchItems start cs items
  if rest.isEmpty then fs.resolve else throw .trailing

end BindingRegistry.Time
