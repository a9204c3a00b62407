import BindingRegistry.Kind
import BindingRegistry.Param.Ty

/-!
The events a registry reports, and the line each is written as: its level, its
message and its fields in the order of their names.
-/
namespace BindingRegistry

inductive Level where
  | trace | debug | info | warn
  deriving DecidableEq, Repr

def Level.text : Level → String
  | .trace => "TRACE"
  | .debug => "DEBUG"
  | .info => "INFO"
  | .warn => "WARN"

inductive Event where
  | invoking (binding : QualifiedName) (args : Nat)
  | rejected (binding : QualifiedName)
  | ignoredArguments (binding : QualifiedName) (ignored : Nat)
  | surplusValues (binding : QualifiedName) (returned : Nat)
  | forwarding (endpoint interface method : String)
  | registeringConverter (target : Ty)
  | converterFailed (target : Ty) (error : String)
  | converterMistyped (target : Ty)
  | unparsedText (input : String) (coarse : TypeClass)
  | passing (label : String) (binding : QualifiedName) (kind : Kind) (injections : List String)
  | unresolvedFilter (binding : QualifiedName) (missing : Ty)
  | registering (binding : QualifiedName) (kind : Kind)
  | overwriting (binding : QualifiedName)
  | skippedMember (interface method : String) (returns : Nat)
  | removedBinding (binding : QualifiedName)
  | removedInterface (interface : String) (removed : Nat)
  | sendingCall (url : String) (args : Nat)
  deriving DecidableEq

namespace Event

def level : Event → Level
  | invoking .. | ignoredArguments .. | forwarding .. => .trace
  | rejected .. | registering .. | removedBinding .. | removedInterface .. | sendingCall .. =>
    .debug
  | registeringConverter .. | passing .. => .info
  | surplusValues .. | converterFailed .. | converterMistyped .. | unparsedText ..
  | unresolvedFilter .. | overwriting .. | skippedMember .. => .warn

def message : Event → String
  | invoking .. | passing .. => "invoking binding"
  | rejected .. => "invocation rejected by filter"
  | ignoredArguments .. => "binding takes no arguments"
  | surplusValues .. => "binding returned more than one value, keeping the first"
  | forwarding .. => "forwarding call"
  | registeringConverter .. => "registering converter"
  | converterFailed .. => "converter failed"
  | converterMistyped .. => "converter produced a value of the wrong type"
  | unparsedText .. => "string argument could not be parsed"
  | unresolvedFilter .. => "filter parameter could not be resolved from injections"
  | registering .. => "registering binding"
  | overwriting .. => "overwriting existing binding"
  | skippedMember .. => "skipping method with more than one return value"
  | removedBinding .. => "removed binding"
  | removedInterface .. => "removed interface"
  | sendingCall .. => "sending remote call"

/-- Names and texts of the fields, in ascending order of the names. -/
def fields : Event → List (String × String)
  | invoking b n => [("args", Decimal.natText n), ("binding", b.text)]
  | rejected b => [("binding", b.text)]
  | ignoredArguments b n => [("binding", b.text), ("ignored", Decimal.natText n)]
  | surplusValues b n => [("binding", b.text), ("returned", Decimal.natText n)]
  | forwarding e i m => [("endpoint", e), ("interface", i), ("method", m)]
  | registeringConverter t => [("target_type", t.fullName)]
  | converterFailed t e => [("error", e), ("target_type", t.fullName)]
  | converterMistyped t => [("target_type", t.fullName)]
  | unparsedText s c => [("class", c.name), ("input", s)]
  | passing l b k is =>
    [("binding", b.text), ("injections", String.intercalate "|" is), ("kind", k.word), ("label", l)]
  | unresolvedFilter b t => [("binding", b.text), ("missing", t.fullName)]
  | registering b k => [("binding", b.text), ("kind", k.word)]
  | overwriting b => [("binding", b.text)]
  | skippedMember i m n => [("interface", i), ("method", m), ("returns", Decimal.natText n)]
  | removedBinding b => [("binding", b.text)]
  | removedInterface i n => [("interface", i), ("removed", Decimal.natText n)]
  | sendingCall u n => [("args", Decimal.natText n), ("url", u)]

def line (e : Event) : String :=
  e.fields.foldl (fun s f => s ++ "; " ++ f.1 ++ "=" ++ f.2) (e.level.text ++ " " ++ e.message)

end Event

end BindingRegistry
