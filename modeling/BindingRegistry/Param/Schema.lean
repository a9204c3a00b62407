import BindingRegistry.Json.Text
import BindingRegistry.Param.Record
import BindingRegistry.Text.Quoted
import BindingRegistry.Time.Reading

/-!
Structured reading of values.
A schema says what shape a value must have; reading gives the typed content or
the first fault. Records are read from objects, whose members are taken in key
order, unknown ones being passed over, or from arrays with one element a
field. Whole numbers are never taken from floats.
-/
namespace BindingRegistry

inductive Found where
  | null
  | bool (b : Bool)
  | integer (n : Int)
  | float (x : Binary64)
  | string (s : String)
  | sequence
  | map
  deriving DecidableEq

namespace Found

def ofValue : Value → Found
  | .null => null
  | .bool b => bool b
  | .integer n => integer n
  | .float x => float x
  | .string s => string s
  | .array _ => sequence
  | .object _ => map

def text : Found → String
  | null => "null"
  | bool b => "boolean `" ++ Json.text (.bool b) ++ "`"
  | integer n => "integer `" ++ Decimal.intText n ++ "`"
  | float x => "floating point `" ++ Json.text (.float x) ++ "`"
  | string s => "string " ++ Text.quote s
  | sequence => "sequence"
  | map => "map"

end Found

inductive ReadFault where
  | invalidType (found : Found) (expected : String)
  | invalidValue (n : Int) (expected : String)
  | missingField (name : String)
  | invalidLength (length : Nat) (expected : String)
  | time (fault : Time.Fault)
  deriving DecidableEq

def ReadFault.message : ReadFault → String
  | .invalidType found expected => "invalid type: " ++ found.text ++ ", expected " ++ expected
  | .invalidValue n expected =>
    "invalid value: integer `" ++ Decimal.intText n ++ "`, expected " ++ expected
  | .missingField name => "missing field `" ++ name ++ "`"
  | .invalidLength n expected =>
    "invalid length " ++ Decimal.natText n ++ ", expected " ++ expected
  | .time fault => fault.message

abbrev Reading := Except ReadFault

namespace Reading

def mismatch (v : Value) (expected : String) : Reading α :=
  .error (.invalidType (.ofValue v) expected)

def whole (w : Width) (v : Value) : Reading (Word w) :=
  match v with
  | .integer n =>
    match Word.ofInt? w n with
    | some a => .ok a
    | none => .error (.invalidValue n w.name)
  | v => mismatch v w.name

def text (v : Value) : Reading String :=
  match v with
  | .string s => .ok s
  | v => mismatch v "a string"

def sequence (read : Value → Reading α) (v : Value) : Reading (List α) :=
  match v with
  | .array items => items.mapM read
  | v => mismatch v "a sequence"

def optional (read : Value → Reading α) (v : Value) : Reading (Option α) :=
  match v with
  | .null => .ok none
  | v => some <$> read v

def textMap (v : Value) : Reading (Dict String) :=
  match v with
  | .object entries => do
    return .ofList (← entries.mapM (fun e => do return (e.1, ← text e.2)))
  | v => mismatch v "a map"

def time (v : Value) : Reading Time.Instant :=
  match v with
  | .string s => (Time.readRelaxed s).mapError .time
  | v => mismatch v "an RFC 3339 formatted date and time string"

/-- The value of a field that has to be there. -/
def required (name : String) : Option α → Reading α
  | some a => .ok a
  | none => .error (.missingField name)

/-- The element of field `i` of a record read from an array. -/
def element (whole : String) (items : List Value) (i : Nat) (read : Value → Reading α) :
    Reading α :=
  match items[i]? with
  | some v => read v
  | none => .error (.invalidLength i whole)

/-- Refuses elements beyond the fields of a record. -/
def noMore (items : List Value) (fields : Nat) : Reading Unit :=
  if items.length ≤ fields then .ok ()
  else .error (.invalidLength items.length "fewer elements in array")

/-- A record from the members of an object, each taken by `take`, or from an array. -/
def record (expected : String) (start : σ) (take : σ → String → Value → Reading σ)
    (finish : σ → Reading α) (ofItems : List Value → Reading α) (v : Value) : Reading α :=
  match v with
  | .object entries => do finish (← entries.foldlM (fun s e => take s e.1 e.2) start)
  | .array items => ofItems items
  | v => mismatch v expected

def pointOfItems (items : List Value) : Reading Point := do
  let all := "struct Point with 2 elements"
  let x ← element all items 0 (whole .i64)
  let y ← element all items 1 (whole .i64)
  noMore items 2
  return ⟨x, y⟩

def point : Value → Reading Point :=
  record "struct Point" ((none, none) : Option (Word .i64) × Option (Word .i64))
    (fun s k v => do
      if k = "x" then return (some (← whole .i64 v), s.2)
      else if k = "y" then return (s.1, some (← whole .i64 v))
      else return s)
    (fun s => do return ⟨← required "x" s.1, ← required "y" s.2⟩)
    pointOfItems

structure ProfileParts where
  name : Option String := none
  age : Option (Word .u8) := none
  tags : List String := []
  home : Option Point := none

def profileOfItems (items : List Value) : Reading Profile := do
  let all := "struct Profile with 4 elements"
  let name ← element all items 0 text
  let age ← element all items 1 (optional (whole .u8))
  let tags ← match items[2]? with
    | some v => sequence text v
    | none => .ok []
  let home ← element all items 3 (optional point)
  noMore items 4
  return ⟨name, age, tags, home⟩

def profile : Value → Reading Profile :=
  record "struct Profile" ({} : ProfileParts)
    (fun s k v => do
      if k = "name" then return { s with name := some (← text v) }
      else if k = "age" then return { s with age := ← optional (whole .u8) v }
      else if k = "tags" then return { s with tags := ← sequence text v }
      else if k = "home" then return { s with home := ← optional point v }
      else return s)
    (fun s => do return ⟨← required "name" s.name, s.age, s.tags, s.home⟩)
    profileOfItems

structure CallerParts where
  correlationId : Option String := none
  headers : Option (Dict String) := none
  sessionCookie : Option String := none
  origin : Option String := none

def callerOfItems (items : List Value) : Reading Caller := do
  let all := "struct CallerContext with 4 elements"
  let correlationId ← element all items 0 (optional text)
  let headers ← element all items 1 textMap
  let sessionCookie ← element all items 2 (optional text)
  let origin ← element all items 3 (optional text)
  noMore items 4
  return { correlationId, headers, sessionCookie, origin }

def caller : Value → Reading Caller :=
  record "struct CallerContext" ({} : CallerParts)
    (fun s k v => do
      if k = "correlation_id" then return { s with correlationId := ← optional text v }
      else if k = "headers" then return { s with headers := some (← textMap v) }
      else if k = "session_cookie" then return { s with sessionCookie := ← optional text v }
      else if k = "origin" then return { s with origin := ← optional text v }
      else return s)
    (fun s => do
      let headers ← required "headers" s.headers
      return ⟨s.correlationId, headers, s.sessionCookie, s.origin⟩)
    callerOfItems

end Reading

inductive Schema where
  | whole (w : Width)
  | text
  | anything
  | sequence (item : Schema)
  | optional (item : Schema)
  | point
  | profile
  | caller
  deriving DecidableEq, Repr

namespace Schema

@[reducible] def Denote : Schema → Type
  | whole w => Word w
  | text => String
  | anything => Value
  | sequence s => List s.Denote
  | optional s => Option s.Denote
  | point => Point
  | profile => Profile
  | caller => Caller

def name : Schema → String
  | whole w => w.name
  | text => "alloc::string::String"
  | anything => "serde_json::value::Value"
  | sequence s => "alloc::vec::Vec<" ++ s.name ++ ">"
  | optional s => "core::option::Option<" ++ s.name ++ ">"
  | point => "driver::types::Point"
  | profile => "driver::types::Profile"
  | caller => "dynbind_core::remote::CallerContext"

def read : (s : Schema) → Value → Reading s.Denote
  | whole w => Reading.whole w
  | text => Reading.text
  | anything => .ok
  | sequence s => Reading.sequence s.read
  | optional s => Reading.optional s.read
  | point => Reading.point
  | profile => Reading.profile
  | caller => Reading.caller

/-- The value that holds a content; absent options are null. -/
def write : (s : Schema) → s.Denote → Value
  | whole _, a => .integer a.val
  | text, a => .string a
  | anything, v => v
  | sequence s, as => .array (as.map s.write)
  | optional s, a => .ofOption s.write a
  | point, p => p.toValue
  | profile, p => p.toValue
  | caller, c => c.toValue

end Schema

end BindingRegistry
