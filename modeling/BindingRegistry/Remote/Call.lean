import BindingRegistry.Action
import BindingRegistry.Error
import BindingRegistry.Remote.Url

/-!
Calls that are forwarded to another instance, and what carries them there.
-/
namespace BindingRegistry

structure RemoteCall where
  endpoint : Remote.Url
  interface : String
  method : String
  args : List Value
  context : Option Caller

inductive TransportError where
  | failed (cause : Failure)
  | relayed (inner : InvokeError)
  deriving DecidableEq

/-- The error of the near side of a forwarded call. -/
def TransportError.toInvokeError : TransportError → InvokeError
  | failed cause => .remote cause
  | relayed inner => .relayed inner

/-- Carries a call to another instance and brings back its result. -/
abbrev Transport (σ : Type) := RemoteCall → Action σ (Except TransportError Value)

/-- A stand-in for a binding of another instance. -/
structure Proxy (σ : Type) where
  endpoint : Remote.Url
  interface : String
  method : String
  /-- The signature of the binding it stands for, known in advance. -/
  signature : String
  transport : Transport σ

def Proxy.debugText (p : Proxy σ) : String :=
  "RemoteBinding \x7b endpoint: " ++ Text.quote p.endpoint.text ++ ", interface: " ++
    Text.quote p.interface ++ ", method: " ++ Text.quote p.method ++ ", signature: " ++
    Text.quote p.signature ++ ", .. \x7d"

end BindingRegistry
