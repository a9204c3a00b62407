import BindingRegistry.Binding

/-!
The invocation of one binding.
The injections of the call are merged over the binding's defaults, and the
binding's own name is put on top. Filters run in order until one rejects; a
rejected call has no value and is no error. Then the caller's arguments are
assigned to the parameters that are not injected, the callable runs, and of
the values it produces the first is the result.
-/
namespace BindingRegistry

variable {σ : Type}

namespace Binding

/-- The injections a call sees: defaults, then those of the call, then the binding's name. -/
def merged (b : Binding σ) (call : Injections) : Injections :=
  (TypeMap.merge [b.singletons, call]).insert .name b.name

/-- The name is the binding's own; of other types the call's value counts before the default. -/
theorem get?_merged (b : Binding σ) (call : Injections) (t : Ty) :
    (b.merged call).get? t = if h : Ty.name = t then some (h ▸ b.name)
      else (call.get? t).or (b.singletons.get? t) := by
  simp [merged, TypeMap.insert, TypeMap.get?_insertEntry, TypeMap.merge, TypeMap.get?_extend]

/-- The error for a number of arguments that does not fit. -/
def countError (b : Binding σ) (supplied : Nat) : InvokeError :=
  .argumentCount (.binding b.name) (b.params.length - b.injectedCount) supplied b.injectedCount

/-- Fills parameters from position `i` on, injected ones by type and the others from the
arguments in order. -/
def fill (whom : Culprit) (countError : InvokeError) (injections : Injections) :
    (i : Nat) → List (Ty × Bool) → List Value → Except InvokeError (List Slot)
  | _, [], [] => .ok []
  | _, [], _ :: _ => .error countError
  | i, (t, true) :: ps, args =>
    match injections.get? t with
    | none => .error (.missingInjection whom i t)
    | some a => (.injected ⟨t, a⟩ :: ·) <$> fill whom countError injections (i + 1) ps args
  | _, (_, false) :: _, [] => .error countError
  | i, (_, false) :: ps, v :: args =>
    (.supplied v :: ·) <$> fill whom countError injections (i + 1) ps args

/-- One slot a parameter, from the injections and the caller's arguments. -/
def assemble (b : Binding σ) (injections : Injections) (args : List Value) :
    Except InvokeError (List Slot) :=
  fill (.binding b.name) (b.countError args.length) injections 0 b.slots args

def normalize (b : Binding σ) : List Value → Action σ Value
  | [] => return .null
  | [v] => return v
  | v :: vs => do
    Action.log (.surplusValues b.name (vs.length + 1))
    return v

end Binding

/-- Runs filters in order up to the first that rejects. -/
def runFilters (o : Outline) : List (Filter σ) → Injections → Action σ (Bool × Injections)
  | [], injections => return (true, injections)
  | f :: fs, injections => do
    match ← f o injections with
    | (true, injections) => runFilters o fs injections
    | (false, injections) => return (false, injections)

/-- The slots for a call that passed the filters; arguments that are not taken are reported. -/
def Binding.prepare (b : Binding σ) (injections : Injections) (args : List Value) :
    Action σ (Except InvokeError (List Slot)) := do
  if b.callable.takesArguments then
    return b.assemble injections (b.callable.bundle args)
  else
    if !args.isEmpty then
      Action.log (.ignoredArguments b.name args.length)
    return .ok []

/-- Invokes a binding with the injections and arguments of a call. -/
def invoke (b : Binding σ) (cs : Converters) (call : Injections) (args : List Value) :
    Action σ (Except InvokeError Value) := do
  Action.log (.invoking b.name args.length)
  let (passed, injections) ← runFilters b.outline b.filters (b.merged call)
  if passed then
    match ← b.prepare injections args with
    | .error e => return .error e
    | .ok slots =>
      match ← b.callable.call cs slots injections with
      | .error e => return .error e
      | .ok values => return .ok (← b.normalize values)
  else
    Action.log (.rejected b.name)
    return .ok .null

end BindingRegistry
