import BindingRegistry.Param.Ty

/-!
Errors by their causes, each with its text and the chain of texts below it.
An error that ends one call names the binding or the position it is about; an
error of the far side of a forwarded call is kept whole inside the error of
the near side.
-/
namespace BindingRegistry

/-- An error of foreign code, known by its text and the texts of its causes. -/
structure Failure where
  message : String
  causes : List String := []
  deriving DecidableEq, Repr

inductive ConvertError where
  | incompatible (found : ValueKind) (expected : Ty)
  /-- Values of the type can only be injected. -/
  | notDecodable (type : Ty)
  | structured (fault : ReadFault)
  | converter (cause : Failure)
  deriving DecidableEq

namespace ConvertError

def message : ConvertError → String
  | incompatible found expected =>
    "cannot convert " ++ found.text ++ " to `" ++ expected.fullName ++ "`"
  | notDecodable t => "`" ++ t.fullName ++ "` cannot be built from a caller-supplied value"
  | structured fault => "structured conversion failed: " ++ fault.message
  | converter cause => "converter failed: " ++ cause.message

def chain : ConvertError → List String
  | incompatible .. | notDecodable _ => []
  | structured fault => [fault.message]
  | converter cause => cause.message :: cause.causes

def toFailure (e : ConvertError) : Failure := ⟨e.message, e.chain⟩

end ConvertError

/-- Whom an error that concerns arguments names: the binding, or its callable where the binding
is not known. -/
inductive Culprit where
  | binding (name : QualifiedName)
  | callable
  | handler
  deriving DecidableEq, Repr

def Culprit.text : Culprit → String
  | binding n => n.text
  | callable => "<callable>"
  | handler => "<handler>"

inductive InvokeError where
  | notFound (name : QualifiedName)
  | missingInjection (whom : Culprit) (position : Nat) (type : Ty)
  | injectionMismatch (position : Nat) (expected found : Ty)
  | argumentCount (whom : Culprit) (expected supplied injected : Nat)
  | conversion (position : Nat) (type : Ty) (cause : ConvertError)
  | callable (cause : Failure)
  /-- A forwarded call did not reach the far side. -/
  | remote (cause : Failure)
  /-- A forwarded call ended in an error on the far side. -/
  | relayed (inner : InvokeError)
  | unwritable (reason : String)
  deriving DecidableEq

namespace InvokeError

def message : InvokeError → String
  | notFound n => "binding \"" ++ n.text ++ "\" not found"
  | missingInjection whom position t =>
    "injection for type `" ++ t.fullName ++ "` not found (binding \"" ++ whom.text ++
      "\", position " ++ Decimal.natText position ++ ")"
  | injectionMismatch position expected found =>
    "injected value of type `" ++ found.fullName ++ "` does not satisfy `" ++
      expected.fullName ++ "` at position " ++ Decimal.natText position
  | argumentCount whom expected supplied injected =>
    "argument count does not match for \"" ++ whom.text ++ "\": expected " ++
      Decimal.natText expected ++ ", got " ++ Decimal.natText supplied ++ " (" ++
      Decimal.natText injected ++ " injections applied)"
  | conversion position t _ =>
    "argument at position " ++ Decimal.natText position ++ " cannot be converted to `" ++
      t.fullName ++ "`"
  | callable cause => "callable failed: " ++ cause.message
  | remote cause => "remote call failed: " ++ cause.message
  | relayed inner => "remote call failed: " ++ inner.message
  | unwritable reason => "return value could not be encoded: " ++ reason

def chain : InvokeError → List String
  | notFound _ | missingInjection .. | injectionMismatch .. | argumentCount .. => []
  | conversion _ _ cause => cause.message :: cause.chain
  | callable cause | remote cause => cause.message :: cause.causes
  | relayed inner => inner.message :: inner.chain
  | unwritable reason => [reason]

end InvokeError

inductive RegistrationError where
  | invalidPattern (pattern : String)
  | invalidEndpoint (endpoint : String) (reason : String)
  deriving DecidableEq, Repr

inductive TopError where
  | invoke (e : InvokeError)
  | convert (e : ConvertError)
  | registration (e : RegistrationError)
  | custom (cause : Failure)
  deriving DecidableEq

namespace RegistrationError

/-- The text of a refused registration, up to the explanation of a bad pattern. -/
def message : RegistrationError → String
  | invalidPattern pattern => "invalid name pattern \"" ++ pattern ++ "\""
  | invalidEndpoint endpoint reason => "\"" ++ endpoint ++ "\" is not a valid url: " ++ reason

def chain : RegistrationError → List String
  | invalidPattern _ => []
  | invalidEndpoint _ reason => [reason]

end RegistrationError

namespace TopError

def message : TopError → String
  | invoke e => "invocation error: " ++ e.message
  | convert e => "conversion error: " ++ e.message
  | registration e => "registration error: " ++ e.message
  | custom cause => cause.message

def chain : TopError → List String
  | invoke e => e.message :: e.chain
  | convert e => e.message :: e.chain
  | registration e => e.message :: e.chain
  | custom cause => cause.causes

end TopError

end BindingRegistry
