import BindingRegistry.Json.Value
import BindingRegistry.Number.Decimal

/-!
The written form of values: no blanks, members in key order, only the
characters escaped that must be, and floats in the fewest digits that read
back.
-/
namespace BindingRegistry.Json

/-- Floats have a point or an exponent mark; exponents from -5 to 15 are written out, others
carry a sign. -/
def floatLayout : Decimal.FloatLayout := ⟨-5, 16, true, true⟩

def hexDigit (n : Nat) : Char := if n < 10 then Char.ofNat (48 + n) else Char.ofNat (87 + n)

/-- The digits of `n` in base sixteen, at least `width` of them. -/
def hexDigits : (width : Nat) → (n : Nat) → List Char
  | 0, _ => []
  | width + 1, n => hexDigits width (n / 16) ++ [hexDigit (n % 16)]

def escapeChar (c : Char) : List Char :=
  if c = '"' then ['\\', '"']
  else if c = '\\' then ['\\', '\\']
  else if c = '\x08' then ['\\', 'b']
  else if c = '\x0c' then ['\\', 'f']
  else if c = '\n' then ['\\', 'n']
  else if c = '\r' then ['\\', 'r']
  else if c = '\t' then ['\\', 't']
  else if c.toNat < 32 then '\\' :: 'u' :: hexDigits 4 c.toNat
  else [c]

def isPlain (c : Char) : Bool := c ≠ '"' && c ≠ '\\' && 32 ≤ c.toNat

def quoted (s : String) : String :=
  if s.all isPlain then "\"" ++ s ++ "\""
  else "\"" ++ String.ofList (s.toList.flatMap escapeChar) ++ "\""

mutual

def text : Value → String
  | .null => "null"
  | .bool b => if b then "true" else "false"
  | .integer n => Decimal.intText n
  | .float x => Decimal.shortestText floatLayout x
  | .string s => quoted s
  | .array items => "[" ++ itemsText items ++ "]"
  | .object entries => "\x7b" ++ membersText entries ++ "\x7d"

def itemsText : List Value → String
  | [] => ""
  | [v] => text v
  | v :: rest => text v ++ "," ++ itemsText rest

def membersText : List (String × Value) → String
  | [] => ""
  | [(k, v)] => quoted k ++ ":" ++ text v
  | (k, v) :: rest => quoted k ++ ":" ++ text v ++ "," ++ membersText rest

end

end BindingRegistry.Json
