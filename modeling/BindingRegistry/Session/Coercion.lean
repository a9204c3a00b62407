import BindingRegistry.Session.Step

/-!
Work on one set of converters outside any registry: registering, copying,
removing, and coercing values with what is registered.
-/
namespace BindingRegistry.Session

open Catalogue

inductive ConverterStep where
  | register (rules : List Rule)
  | install
  | extend (rules : List Rule)
  /-- Copies the set, empties it and fills it again from the copy. -/
  | restore
  | unregister (t : Ty)
  | contains (t : Ty)
  | convert (t : Ty) (v : Value)
  | debug

def ConverterStep.perform (cs : Converters) : ConverterStep → Logged (Converters × Reply)
  | register rules => do return (← registerAll cs rules, .nothing)
  | install => do return (← cs.install, .nothing)
  | extend rules => do return (cs.extend (← registerAll .empty rules), .nothing)
  | restore =>
    let restored := TypeMap.empty.extend cs
    pure (restored, .number restored.size)
  | unregister t => pure (cs.erase t, .flag (cs.contains t))
  | contains t => pure (cs, .flag (cs.contains t))
  | convert t v => do return (cs, .converted ((← cs.convert t v).map t.shown))
  | debug => pure (cs, .text (typeSetText cs.types))

structure ConverterAnswer where
  reply : Reply
  size : Nat
  lines : List String

/-- Answers steps one after the other; `earlier` are events not yet told of. -/
def runConverters (earlier : List Event) (cs : Converters) :
    List ConverterStep → List ConverterAnswer
  | [] => []
  | step :: steps =>
    let answered := step.perform cs
    let (cs, reply) := answered.value
    ⟨reply, cs.size, (earlier ++ answered.events).map Event.line⟩ :: runConverters [] cs steps

/-- Answers steps on a set that starts with the given rules. -/
def coercionSession (rules : List Rule) (steps : List ConverterStep) : List ConverterAnswer :=
  let start := registerAll .empty rules
  runConverters start.events start.value steps

end BindingRegistry.Session
