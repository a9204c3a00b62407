import BindingRegistry.Registry

/-!
Calls forwarded to another registry of the same world. Of the injections of a
call only the caller's context travels along.
-/
namespace BindingRegistry

/-- The injections on the far side of a forwarded call. -/
def farInjections (context : Option Caller) : Injections :=
  match context with
  | none => .empty
  | some c => TypeMap.empty.insert .caller c

def Transport.toRegistry (target : Registry σ) : Transport σ := fun call => do
  match ← target.invoke ⟨call.interface, call.method⟩ (farInjections call.context) call.args with
  | .ok v => return .ok v
  | .error e => return .error (.relayed e)

end BindingRegistry
