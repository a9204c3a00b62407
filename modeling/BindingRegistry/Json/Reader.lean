import BindingRegistry.Json.Value
import BindingRegistry.Number.Decimal

/-!
Reading values from their written form.
A number without point or exponent that fits a 64-bit word, signed or not, is
whole; every other number is the nearest binary value, and `-0` is a negative
zero. Of members with one key the last counts. Nesting is limited.
-/
namespace BindingRegistry.Json

/-- Nesting deeper than this is refused. -/
def maxDepth : Nat := 127

def isSpace (c : Char) : Bool := c = ' ' || c = '\n' || c = '\r' || c = '\t'

def skipSpace (cs : List Char) : List Char := cs.dropWhile isSpace

def afterWord? : (word cs : List Char) → Option (List Char)
  | [], cs => some cs
  | w :: ws, c :: cs => if w = c then afterWord? ws cs else none
  | _ :: _, [] => none

def hexValue? (c : Char) : Option Nat :=
  if Decimal.isDigit c then some (c.toNat - 48)
  else if 'a' ≤ c && c ≤ 'f' then some (c.toNat - 87)
  else if 'A' ≤ c && c ≤ 'F' then some (c.toNat - 55)
  else none

def hex4? : List Char → Option (Nat × List Char)
  | a :: b :: c :: d :: rest => do
    let a ← hexValue? a
    let b ← hexValue? b
    let c ← hexValue? c
    let d ← hexValue? d
    some (((a * 16 + b) * 16 + c) * 16 + d, rest)
  | _ => none

/-- Whether a code unit is the second half of a surrogate pair. -/
def isLow (unit : Nat) : Bool := 0xdc00 ≤ unit && unit < 0xe000

def isHigh (unit : Nat) : Bool := 0xd800 ≤ unit && unit < 0xdc00

def pairChar (high low : Nat) : Char :=
  Char.ofNat (0x10000 + (high - 0xd800) * 0x400 + (low - 0xdc00))

/-- The character after `\u`: one unit, or a surrogate pair. -/
def escapedUnit? (cs : List Char) : Option (Char × List Char) := do
  let (unit, rest) ← hex4? cs
  if isLow unit then none
  else if isHigh unit then
    match rest with
    | '\\' :: 'u' :: rest =>
      let (low, rest) ← hex4? rest
      if isLow low then some (pairChar unit low, rest) else none
    | _ => none
  else some (Char.ofNat unit, rest)

/-- The character written by a backslash and the given one. -/
def shortEscape? (c : Char) : Option Char :=
  if c = '"' || c = '\\' || c = '/' then some c
  else if c = 'b' then some '\x08'
  else if c = 'f' then some '\x0c'
  else if c = 'n' then some '\n'
  else if c = 'r' then some '\r'
  else if c = 't' then some '\t'
  else none

/-- The characters of a string up to its closing quote, in reverse before `acc`. -/
def stringBody? (fuel : Nat) (acc : List Char) (cs : List Char) : Option (String × List Char) :=
  match fuel, cs with
  | 0, _ => none
  | _, [] => none
  | fuel + 1, c :: rest =>
    if c = '"' then some (String.ofList acc.reverse, rest)
    else if c = '\\' then
      match rest with
      | [] => none
      | e :: rest =>
        if e = 'u' then
          match escapedUnit? rest with
          | some (c, rest) => stringBody? fuel (c :: acc) rest
          | none => none
        else
          match shortEscape? e with
          | some c => stringBody? fuel (c :: acc) rest
          | none => none
    else if c.toNat < 32 then none
    else stringBody? fuel (c :: acc) rest

def digitRun (cs : List Char) : List Char × List Char :=
  (cs.takeWhile Decimal.isDigit, cs.dropWhile Decimal.isDigit)

def takeMinus : List Char → Bool × List Char
  | '-' :: rest => (true, rest)
  | cs => (false, cs)

/-- Whether digits are those of a whole number: without zeros in front. -/
def isWhole (ds : List Char) : Bool := ds ≠ [] && (ds.head? ≠ some '0' || ds.length = 1)

def fraction? : List Char → Option (Option (List Char) × List Char)
  | '.' :: rest =>
    match digitRun rest with
    | ([], _) => none
    | (ds, rest) => some (some ds, rest)
  | rest => some (none, rest)

def takeSign : List Char → Bool × List Char
  | '+' :: rest => (false, rest)
  | cs => takeMinus cs

/-- The number after the mark of an exponent: an optional sign and at least one digit. -/
def exponent? (cs : List Char) : Option (Int × List Char) :=
  let (negative, cs) := takeSign cs
  match digitRun cs with
  | ([], _) => none
  | (ds, rest) => some (Binary.signed negative (Decimal.value ds), rest)

def isExponentMark (c : Char) : Bool := c = 'e' || c = 'E'

def scaling? : List Char → Option (Option Int × List Char)
  | [] => some (none, [])
  | c :: rest =>
    if isExponentMark c then (exponent? rest).map fun p => (some p.1, p.2)
    else some (none, c :: rest)

/-- The value with the given digits and power of ten, unless it is beyond the finite range. -/
def floatValue? (negative : Bool) (digits : List Char) (exponent : Int) : Option Value :=
  let x : Binary64 := Decimal.nearest .double negative (Decimal.value digits) exponent
  if x.isFinite then some (.float x) else none

/-- The number with the given digits before and after its point, and exponent. -/
def numberValue? (negative : Bool) (whole : List Char) (places : Option (List Char))
    (exponent : Option Int) : Option Value :=
  let n := Binary.signed negative (Decimal.value whole)
  if places.isNone && exponent.isNone && !(negative && n = 0) &&
      Value.minInteger ≤ n && n ≤ Value.maxInteger then
    some (.integer n)
  else
    let places := places.getD []
    floatValue? negative (whole ++ places) (exponent.getD 0 - places.length)

def number? (cs : List Char) : Option (Value × List Char) :=
  let (negative, cs) := takeMinus cs
  let (whole, rest) := digitRun cs
  if isWhole whole then do
    let (places, rest) ← fraction? rest
    let (exponent, rest) ← scaling? rest
    let v ← numberValue? negative whole places exponent
    some (v, rest)
  else none

mutual

/-- One value at the head of `cs`, at most `depth` levels deep. -/
def value? (fuel depth : Nat) (cs : List Char) : Option (Value × List Char) :=
  match fuel with
  | 0 => none
  | fuel + 1 =>
    match skipSpace cs with
    | [] => none
    | c :: rest =>
      if c = '"' then (stringBody? (rest.length + 1) [] rest).map (fun p => (.string p.1, p.2))
      else if c = '[' then
        match depth with
        | 0 => none
        | depth + 1 =>
          match skipSpace rest with
          | ']' :: rest => some (.array [], rest)
          | rest => items? fuel depth [] rest
      else if c = '\x7b' then
        match depth with
        | 0 => none
        | depth + 1 =>
          match skipSpace rest with
          | '\x7d' :: rest => some (.object [], rest)
          | rest => members? fuel depth .empty rest
      else if c = 'n' then (afterWord? "ull".toList rest).map (fun r => (.null, r))
      else if c = 't' then (afterWord? "rue".toList rest).map (fun r => (.bool true, r))
      else if c = 'f' then (afterWord? "alse".toList rest).map (fun r => (.bool false, r))
      else number? (c :: rest)

/-- The items of an array after an opening bracket or a comma, in reverse before `acc`. -/
def items? (fuel depth : Nat) (acc : List Value) (cs : List Char) :
    Option (Value × List Char) :=
  match fuel with
  | 0 => none
  | fuel + 1 =>
    match value? fuel depth cs with
    | none => none
    | some (v, rest) =>
      match skipSpace rest with
      | ',' :: rest => items? fuel depth (v :: acc) rest
      | ']' :: rest => some (.array (v :: acc).reverse, rest)
      | _ => none

/-- The members of an object after an opening brace or a comma. -/
def members? (fuel depth : Nat) (acc : Dict Value) (cs : List Char) :
    Option (Value × List Char) :=
  match fuel with
  | 0 => none
  | fuel + 1 =>
    match skipSpace cs with
    | '"' :: rest =>
      match stringBody? (rest.length + 1) [] rest with
      | none => none
      | some (k, rest) =>
        match skipSpace rest with
        | ':' :: rest =>
          match value? fuel depth rest with
          | none => none
          | some (v, rest) =>
            match skipSpace rest with
            | ',' :: rest => members? fuel depth (acc.insert k v) rest
            | '\x7d' :: rest => some (.ofDict (acc.insert k v), rest)
            | _ => none
        | _ => none
    | _ => none

end

def read? (cs : List Char) : Option Value :=
  match value? (2 * cs.length + 2) maxDepth cs with
  | some (v, rest) => if (skipSpace rest).isEmpty then some v else none
  | none => none

def parse? (s : String) : Option Value := read? s.toList

end BindingRegistry.Json
