import BindingRegistry.Registry.Selection

/-!
Exposing what an object announces. Members are taken in the announced order;
those whose name is not wanted are passed over, and those that produce more
than one value are skipped with a warning.
-/
namespace BindingRegistry

inductive Member (σ : Type) where
  | method (name : String) (op : Operation σ)
  | getter (name : String) (returns : Returns) (get : Action σ returns.Denote)

namespace Member

variable {σ : Type}

def name : Member σ → String
  | method n _ => n
  | getter n .. => n

def arity : Member σ → Nat
  | method _ op => op.returns.arity
  | getter _ r _ => r.arity

def callable : Member σ → Callable σ
  | method _ op => .method op
  | getter _ r get => .getter r get

end Member

/-- Registers the wanted members under an interface, and gives the registered names. -/
def Registry.expose {σ : Type} (r : Registry σ) (interface : String) (wanted : String → Bool) :
    List (Member σ) → Logged (Registry σ × List QualifiedName)
  | [] => pure (r, [])
  | m :: ms =>
    if !wanted m.name then r.expose interface wanted ms
    else if 1 < m.arity then do
      Logged.log (.skippedMember interface m.name m.arity)
      r.expose interface wanted ms
    else do
      let n : QualifiedName := ⟨interface, m.name⟩
      let r ← r.register n m.callable
      let (r, names) ← r.expose interface wanted ms
      return (r, n :: names)

def Registry.exposePattern {σ : Type} (r : Registry σ) (interface pattern : String)
    (members : List (Member σ)) :
    Except RegistrationError (Logged (Registry σ × List QualifiedName)) :=
  (fun wanted => r.expose interface wanted members) <$> admitted pattern

end BindingRegistry
