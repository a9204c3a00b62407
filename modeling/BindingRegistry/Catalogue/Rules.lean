import BindingRegistry.Catalogue.Types
import BindingRegistry.Converters.Builtin

/-!
The converters a host offers by key. Most are partial: what a rule does not
take it refuses with a text of its own, and the coercion goes on without it.
-/
namespace BindingRegistry.Catalogue

structure Rule where
  target : Ty
  convert : Converter
  /-- Whether the rule's values have the target type; if not, they are of no use. -/
  typed : Bool := true

def refuse (text : String) : Except Failure α := .error { message := text }

/-- A rule for texts; other values are refused. -/
def fromText (f : String → Except Failure Injected) : Converter
  | .string s => f s
  | _ => refuse "not a string"

/-- A whole number in text, refused with the reason it cannot be read for. -/
def wholeNumber (cs : List Char) : Except Failure (Word .i64) :=
  match Signed.read cs with
  | .ok n => .ok (.wrap .i64 n)
  | .error fault => refuse fault.message

/-- The length of a text in bytes, or of an array. -/
def lengthOf : Converter
  | .string s => .ok ⟨.i64, .wrap .i64 s.utf8ByteSize⟩
  | .array items => .ok ⟨.i64, .wrap .i64 items.length⟩
  | _ => refuse "no length"

def yesOrNo (s : String) : Except Failure Injected :=
  if s = "yes" then .ok ⟨.bool, true⟩
  else if s = "no" then .ok ⟨.bool, false⟩
  else refuse "neither yes nor no"

/-- A temperature in degrees Fahrenheit, marked by a final `F`. -/
def fahrenheit (s : String) : Except Failure Injected :=
  match s.toList.getLast? with
  | some 'F' => do
    let degrees ← wholeNumber s.toList.dropLast
    let x := (Binary.ofInt degrees.val : Binary64)
    return ⟨.host .celsius, ((x.sub (.ofInt 32)).mul (.ofInt 5)).div (.ofInt 9)⟩
  | _ => refuse "not fahrenheit"

def commaSeparated (s : String) : Except Failure Injected := do
  let numbers ← (Text.splitWhere (· = ',') s.toList).mapM wholeNumber
  return ⟨.list .i64, numbers⟩

def coordinates (s : String) : Except Failure Injected :=
  match Text.cutAt? ';' s.toList with
  | none => refuse "no semicolon"
  | some (x, y) => do
    let x ← wholeNumber x
    let y ← wholeNumber y
    return ⟨.structured .point, ⟨x, y⟩⟩

def star (s : String) : Except Failure Injected :=
  if s = "*" then .ok ⟨.option .i64, none⟩ else refuse "not a star"

def rules : List (String × Rule) := [
  ("i64_99", ⟨.i64, fun _ => .ok ⟨.i64, .wrap .i64 99⟩, true⟩),
  ("i64_fail", ⟨.i64, fun _ => refuse "always fails", true⟩),
  ("i64_len", ⟨.i64, lengthOf, true⟩),
  ("i64_wrong", ⟨.i64, fun _ => .ok ⟨.string, "wrong"⟩, false⟩),
  ("string_wrong", ⟨.string, fun _ => .ok ⟨.bool, true⟩, false⟩),
  ("string_fixed", ⟨.string, fun _ => .ok ⟨.string, "fixed"⟩, true⟩),
  ("string_upper", ⟨.string, fromText fun s => .ok ⟨.string, Text.upperAscii s⟩, true⟩),
  ("bool_yes", ⟨.bool, fromText yesOrNo, true⟩),
  ("celsius", ⟨.host .celsius, fromText fahrenheit, true⟩),
  ("csv", ⟨.list .i64, fromText commaSeparated, true⟩),
  ("point", ⟨.structured .point, fromText coordinates, true⟩),
  ("opt_star", ⟨.option .i64, fromText star, true⟩),
  ("value_wrap", ⟨.value, fun v => .ok ⟨.value, .record [("wrapped", v)]⟩, true⟩),
  ("context", ⟨.sharedContext, fromText fun s => .ok ⟨.sharedContext, s⟩, true⟩),
  ("time_epoch", ⟨.time, fun _ => .ok ⟨.time, Time.Instant.epoch⟩, true⟩),
  ("builtin_string", ⟨.string, Converters.stringConverter, true⟩),
  ("builtin_time", ⟨.time, Converters.timeConverter, true⟩)]

/-- The rules that a key stands for; one key stands for both built-in converters. -/
def rules? (key : String) : Option (List Rule) :=
  if key = "default" then
    some [⟨.string, Converters.stringConverter, true⟩, ⟨.time, Converters.timeConverter, true⟩]
  else (Dict.findIn? key rules).map fun r => [r]

def registerAll (cs : Converters) (rules : List Rule) : Logged Converters :=
  rules.foldlM (fun cs r => cs.register r.target r.convert) cs

end BindingRegistry.Catalogue
