import BindingRegistry.Binding

/-!
Filters for common ends: reporting, recording and counting invocations, and
predicates over typed values taken from the injections of the call.
-/
namespace BindingRegistry.Filter

variable {σ : Type}

def logging (label : Option String) : Filter σ := fun o injections => do
  Action.log (.passing (label.getD "dynbind") o.name o.kind (sortedNames injections.types))
  return (true, injections)

/-- Records the name of every binding it runs for, and answers as fixed in advance. -/
def recording (record : QualifiedName → σ → σ) (verdict : Bool) : Filter σ := fun o injections => do
  Action.change (record o.name)
  return (verdict, injections)

/-- Counts its runs and lets every invocation pass. -/
def counting (count : σ → σ) : Filter σ := fun _ injections => do
  Action.change count
  return (true, injections)

/-- A value for each type, from the injections; or the first type that has none. -/
def resolve (injections : Injections) : (ts : List Ty) → Except Ty (Args ts)
  | [] => .ok ()
  | t :: ts =>
    match injections.get? t with
    | none => .error t
    | some a =>
      match resolve injections ts with
      | .ok as => .ok (a, as)
      | .error t => .error t

/-- A predicate over typed values, which may also change the injections. -/
abbrev Predicate (σ : Type) (ts : List Ty) :=
  Args ts → Injections → Action σ (Bool × Injections)

/-- Resolves the predicate's values and asks it; an invocation that lacks one of them is
rejected with a warning and its injections stay as they are. -/
def autoInject (ts : List Ty) (p : Predicate σ ts) : Filter σ := fun o injections =>
  match resolve injections ts with
  | .ok args => p args injections
  | .error missing => do
    Action.log (.unresolvedFilter o.name missing)
    return (false, injections)

end BindingRegistry.Filter
