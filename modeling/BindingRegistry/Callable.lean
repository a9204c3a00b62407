import BindingRegistry.Converters
import BindingRegistry.Remote.Call
import BindingRegistry.Returns

/-!
Callables: the units of behaviour behind bindings.
A callable declares its parameters and is run on one slot a parameter. Slots
are converted one by one in order, each when it is taken, and a typed function
runs only after its last slot was taken.
-/
namespace BindingRegistry

inductive Slot where
  | supplied (v : Value)
  | injected (i : Injected)

/-- Slots not yet taken, and how many were. -/
structure ArgVector where
  slots : List Slot
  position : Nat := 0

namespace ArgVector

def remaining (args : ArgVector) : Nat := args.slots.length

/-- The content of a slot for a parameter of type `t` at `position`. -/
def content (cs : Converters) (t : Ty) (position : Nat) :
    Slot → Logged (Except InvokeError t.Denote)
  | .supplied v => do
    match ← cs.convert t v with
    | .ok a => return .ok a
    | .error e => return .error (.conversion position t e)
  | .injected i =>
    match (Injected.cast? i t).bind t.accept with
    | some a => pure (.ok a)
    | none => pure (.error (.injectionMismatch position t i.1))

/-- Takes the next slot as a value of type `t`. -/
def take (cs : Converters) (t : Ty) (args : ArgVector) :
    Logged (Except InvokeError (t.Denote × ArgVector)) :=
  match args.slots with
  | [] => pure (.error (.argumentCount .callable (args.position + 1) args.position 0))
  | slot :: rest => do
    match ← content cs t args.position slot with
    | .ok a => return .ok (a, ⟨rest, args.position + 1⟩)
    | .error e => return .error e

end ArgVector

@[reducible] def Args : List Ty → Type
  | [] => Unit
  | t :: ts => t.Denote × Args ts

/-- Takes one slot for each type, in order; the first that fails decides the error. -/
def ArgVector.takeAll (cs : Converters) :
    (ts : List Ty) → ArgVector → Logged (Except InvokeError (Args ts))
  | [], _ => pure (.ok ())
  | t :: ts, args => do
    match ← args.take cs t with
    | .error e => return .error e
    | .ok (a, rest) =>
      match ← takeAll cs ts rest with
      | .error e => return .error e
      | .ok as => return .ok (a, as)

structure Operation (σ : Type) where
  params : List Ty
  returns : Returns
  run : Args params → Action σ returns.Denote

/-- Takes the arguments of an operation and runs it on them. -/
def Operation.call (op : Operation σ) (cs : Converters) (slots : List Slot) :
    Action σ (Except InvokeError (List Value)) := do
  match ← Action.ofLogged (ArgVector.takeAll cs op.params { slots }) with
  | .error e => return .error e
  | .ok args => return op.returns.intoValues (← op.run args)

/-- A callable with conventions of its own. -/
structure Custom (σ : Type) where
  params : List Ty
  signature : List Ty → String
  /-- Rearranges the caller's arguments before they are assigned to parameters. -/
  bundle : List Value → List Value
  run : Converters → ArgVector → Injections → Action σ (Except InvokeError (List Value))

inductive Callable (σ : Type) where
  | function (op : Operation σ)
  | method (op : Operation σ)
  | getter (returns : Returns) (get : Action σ returns.Denote)
  | handler (context : Ty) (returns : Returns) (run : context.Denote → Action σ returns.Denote)
  | proxy (p : Proxy σ)
  | custom (c : Custom σ)

namespace Callable

variable {σ : Type}

/-- Callables with conventions of their own count as handlers. -/
def kind : Callable σ → Kind
  | function _ => .function
  | method _ => .method
  | getter .. => .getter
  | handler .. => .handler
  | proxy _ => .proxy
  | custom _ => .handler

/-- The declared parameters; a proxy has one for all arguments together. -/
def params : Callable σ → List Ty
  | function op => op.params
  | method op => op.params
  | getter .. => []
  | handler .. => []
  | proxy _ => [.list .value]
  | custom c => c.params

/-- The signature shown to callers who have to send the `visible` parameters. -/
def signature (c : Callable σ) (visible : List Ty) : String :=
  match c with
  | handler .. => ""
  | proxy p => p.signature
  | custom c => c.signature visible
  | _ => signatureOf visible

def takesArguments : Callable σ → Bool
  | getter .. | handler .. => false
  | _ => true

def bundle (c : Callable σ) (args : List Value) : List Value :=
  match c with
  | proxy _ => [.array args]
  | custom c => c.bundle args
  | _ => args

end Callable

/-- Forwards a call with all arguments and the caller's context. -/
def Proxy.call (p : Proxy σ) (cs : Converters) (slots : List Slot) (injections : Injections) :
    Action σ (Except InvokeError (List Value)) := do
  match ← Action.ofLogged (ArgVector.take cs (.list .value) { slots }) with
  | .error e => return .error e
  | .ok (args, _) =>
    Action.log (.forwarding p.endpoint.text p.interface p.method)
    match ← p.transport ⟨p.endpoint, p.interface, p.method, args, injections.get? .caller⟩ with
    | .error e => return .error e.toInvokeError
    | .ok v => return .ok [v]

/-- Runs a callable on its slots, with the injections of the call at hand. -/
def Callable.call (c : Callable σ) (cs : Converters) (slots : List Slot)
    (injections : Injections) : Action σ (Except InvokeError (List Value)) :=
  match c with
  | function op => op.call cs slots
  | method op => op.call cs slots
  | getter returns get => do return returns.intoValues (← get)
  | handler context returns run =>
    match injections.get? context with
    | none => return .error (.missingInjection .handler 0 context)
    | some a => do return returns.intoValues (← run a)
  | proxy p => p.call cs slots injections
  | custom c => c.run cs { slots } injections

end BindingRegistry
