import BindingRegistry.Pattern.Reader
import BindingRegistry.Registry

/-!
Groups of bindings, and what is done to a whole group at once. A group is a
list of names; names without a binding are passed over.
-/
namespace BindingRegistry.Registry

variable {σ : Type}

def selectAll (r : Registry σ) : List QualifiedName := r.bindings.map (·.name)

def selectInterface (r : Registry σ) (interface : String) : List QualifiedName :=
  (r.methodNames interface).map (⟨interface, ·⟩)

/-- The names whose dotted form satisfies `p`. -/
def selectMatching (r : Registry σ) (p : String → Bool) : List QualifiedName :=
  r.selectAll.filter (fun n => p n.text)

/-- The names that a pattern admits; a text that is no pattern is refused. -/
def admitted (pattern : String) : Except RegistrationError (String → Bool) :=
  match Pattern.parse? pattern with
  | some p => .ok p.matchesSome
  | none => .error (.invalidPattern pattern)

def selectPattern (r : Registry σ) (pattern : String) :
    Except RegistrationError (List QualifiedName) :=
  r.selectMatching <$> admitted pattern

def updateEach (r : Registry σ) (names : List QualifiedName) (f : Binding σ → Binding σ) :
    Registry σ :=
  names.foldl (fun r n => r.update n f) r

/-- Removes every named binding and counts those that were there. -/
def removeEach (r : Registry σ) : List QualifiedName → Logged (Registry σ × Nat)
  | [] => pure (r, 0)
  | n :: ns => do
    let (r, removed) ← r.remove n
    let (r, count) ← r.removeEach ns
    return (r, count + (if removed.isSome then 1 else 0))

def selected (r : Registry σ) (names : List QualifiedName) : List (Binding σ) :=
  names.filterMap r.lookup

def selectionText (names : List QualifiedName) : String :=
  "[" ++ String.intercalate ", " (names.map (fun n => Text.quote n.text)) ++ "]"

end BindingRegistry.Registry
