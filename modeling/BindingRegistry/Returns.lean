import BindingRegistry.Param.Decode

/-!
What callables return.
A return type says how many values a callable produces; a result that may be
an error produces as many as its success. Writing the values can fail only for
structured content, which brings its own outcome.
-/
namespace BindingRegistry

inductive Returned where
  | typed (t : Ty)
  | structured
  deriving DecidableEq, Repr

@[reducible] def Returned.Denote : Returned → Type
  | typed t => t.Denote
  | structured => Except String Value

def Returned.write : (r : Returned) → r.Denote → Except InvokeError Value
  | typed t, a => .ok (t.encode a)
  | structured, outcome => outcome.mapError .unwritable

inductive Returns where
  | nothing
  | one (r : Returned)
  | pair (r₁ r₂ : Returned)
  | triple (r₁ r₂ r₃ : Returned)
  | quad (r₁ r₂ r₃ r₄ : Returned)
  /-- A result that may be the callable's own error. -/
  | result (r : Returns)
  deriving DecidableEq, Repr

namespace Returns

abbrev typed (t : Ty) : Returns := one (.typed t)

@[reducible] def Denote : Returns → Type
  | nothing => Unit
  | one r => r.Denote
  | pair r₁ r₂ => r₁.Denote × r₂.Denote
  | triple r₁ r₂ r₃ => r₁.Denote × r₂.Denote × r₃.Denote
  | quad r₁ r₂ r₃ r₄ => r₁.Denote × r₂.Denote × r₃.Denote × r₄.Denote
  | result r => Except Failure r.Denote

def arity : Returns → Nat
  | nothing => 0
  | one _ => 1
  | pair .. => 2
  | triple .. => 3
  | quad .. => 4
  | result r => r.arity

/-- The produced values, in order; the first that cannot be written decides the error. -/
def intoValues : (r : Returns) → r.Denote → Except InvokeError (List Value)
  | nothing, _ => .ok []
  | one r, a => do return [← r.write a]
  | pair r₁ r₂, (a, b) => do return [← r₁.write a, ← r₂.write b]
  | triple r₁ r₂ r₃, (a, b, c) => do return [← r₁.write a, ← r₂.write b, ← r₃.write c]
  | quad r₁ r₂ r₃ r₄, (a, b, c, d) => do
    return [← r₁.write a, ← r₂.write b, ← r₃.write c, ← r₄.write d]
  | result r, outcome =>
    match outcome with
    | .ok a => r.intoValues a
    | .error e => .error (.callable e)

end Returns

end BindingRegistry
