import BindingRegistry.Action
import BindingRegistry.Injection
import BindingRegistry.Number.FloatText

/-!
Coercion of callers' values to the types of parameters.
A converter registered for exactly the type is asked first; if there is none,
or it fails, or what it yields has another type, a text is read as a number or
a truth value where the type asks for one, and the result is decoded.
-/
namespace BindingRegistry

/-- A conversion from callers' values to values of some type. -/
abbrev Converter := Value → Except Failure Injected

/-- The registered converters, at most one a type. -/
abbrev Converters := TypeMap (fun _ => Converter)

/-- A text as a value of the class, its surrounding blanks aside; nothing for classes that keep
texts as they are. -/
def parsedText? (c : TypeClass) (s : String) : Option Value :=
  let cs := Text.trimChars s.toList
  match c with
  | .float => (FloatText.read? cs).map .float
  | .integer => (Signed.read cs).toOption.map .integer
  | .bool =>
    let t := String.ofList cs
    if t = "true" then some (.bool true) else if t = "false" then some (.bool false) else none
  | _ => none

def TypeClass.readsText : TypeClass → Bool
  | .float | .integer | .bool => true
  | _ => false

/-- A text argument for a type of the class; one that cannot be read is kept. -/
def parseText (c : TypeClass) (s : String) : Logged Value :=
  if c.readsText then
    match parsedText? c s with
    | some v => pure v
    | none => do
      Logged.log (.unparsedText s c)
      return .string s
  else pure (.string s)

namespace Converters

/-- Registers a converter for `t`, in place of an earlier one. -/
def register (cs : Converters) (t : Ty) (c : Converter) : Logged Converters := do
  Logged.log (.registeringConverter t)
  return cs.insert t c

/-- What the converter registered for `t` makes of a value. -/
def attempt (cs : Converters) (t : Ty) (v : Value) : Logged (Option t.Denote) :=
  match cs.get? t with
  | none => pure none
  | some convert =>
    match convert v with
    | .ok made =>
      match Injected.cast? made t with
      | some a => pure (some a)
      | none => do
        Logged.log (.converterMistyped t)
        return none
    | .error e => do
      Logged.log (.converterFailed t e.message)
      return none

/-- A value as the type takes it without converters. -/
def coerce (t : Ty) (v : Value) : Logged (Except ConvertError t.Denote) := do
  let v ← match v with
    | .string s => parseText t.coarse s
    | v => pure v
  return t.decode v

def convert (cs : Converters) (t : Ty) (v : Value) : Logged (Except ConvertError t.Denote) := do
  match ← cs.attempt t v with
  | some a => return .ok a
  | none => coerce t v

end Converters

end BindingRegistry
