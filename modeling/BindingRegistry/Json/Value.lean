import BindingRegistry.Dict
import BindingRegistry.Number.Binary

/-!
Loosely typed values, the form in which callers send arguments and receive
results. A number is whole, between -2^63 and 2^64 - 1, or a finite binary
value; the two are never confused. Object entries are in ascending key order.
-/
namespace BindingRegistry

inductive Value where
  | null
  | bool (b : Bool)
  | integer (n : Int)
  | float (x : Binary64)
  | string (s : String)
  | array (items : List Value)
  | object (entries : List (String × Value))
  deriving Inhabited

inductive ValueKind where
  | null | bool | integer | float | string | array | map
  deriving DecidableEq, Repr

def ValueKind.text : ValueKind → String
  | .null => "null"
  | .bool => "bool"
  | .integer => "integer"
  | .float => "float"
  | .string => "string"
  | .array => "array"
  | .map => "map"

namespace Value

def kind : Value → ValueKind
  | null => .null
  | bool _ => .bool
  | integer _ => .integer
  | float _ => .float
  | string _ => .string
  | array _ => .array
  | object _ => .map

def minInteger : Int := -twoTo 63
def maxInteger : Int := twoTo 64 - 1

def nat (n : Nat) : Value := integer n
def strings (ss : List String) : Value := array (ss.map string)

def ofDict (d : Dict Value) : Value := object d.entries

/-- The object with the given members; of two with one key the later counts. -/
def record (members : List (String × Value)) : Value := ofDict (Dict.ofList members)

/-- The number as a value; an infinity or not-a-number has no number to stand for it. -/
def ofBinary64 (x : Binary64) : Value := if x.isFinite then float x else null

/-- The member of an object under `k`; nothing for other kinds. -/
def member? (v : Value) (k : String) : Option Value :=
  match v with
  | object entries => Dict.findIn? k entries
  | _ => none

end Value

end BindingRegistry
