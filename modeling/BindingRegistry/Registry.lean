import BindingRegistry.Converters.Builtin
import BindingRegistry.Engine

/-!
The registry: bindings under interfaces and methods, the values injected into
all of them, the converters, and a revision that counts every binding put in
or taken out. Both levels are kept in key order and no interface is ever
empty. Changes of a registry report events; invocations act on the world.
-/
namespace BindingRegistry

structure Config where
  defaultInterface : String := "main"
  defaultMethod : String := "f"
  defaultConverters : Bool := true
  deriving DecidableEq, Repr

structure Registry (σ : Type) where
  interfaces : Dict (Dict (Binding σ)) := .empty
  revision : Nat := 0
  globals : Injections := .empty
  converters : Converters := .empty
  config : Config := {}

namespace Registry

variable {σ : Type}

def lookup (r : Registry σ) (n : QualifiedName) : Option (Binding σ) :=
  (r.interfaces.get? n.interface).bind (·.get? n.method)

/-- Every binding, in the order of interfaces and methods. -/
def bindings (r : Registry σ) : List (Binding σ) := r.interfaces.values.flatMap Dict.values

def interfaceNames (r : Registry σ) : List String := r.interfaces.keys

/-- The methods of an interface, none if there is no such interface. -/
def methodNames (r : Registry σ) (interface : String) : List String :=
  match r.interfaces.get? interface with
  | none => []
  | some methods => methods.keys

def size (r : Registry σ) : Nat := sumBy Dict.size r.interfaces.values

def signature (r : Registry σ) (n : QualifiedName) : Option String :=
  (r.lookup n).map Binding.signature

def put (r : Registry σ) (b : Binding σ) : Registry σ :=
  let methods := (r.interfaces.get? b.name.interface).getD .empty
  { r with interfaces := r.interfaces.insert b.name.interface (methods.insert b.name.method b) }

/-- Registers a callable, in place of an earlier binding of the name, with all global
injections. -/
def register (r : Registry σ) (n : QualifiedName) (c : Callable σ) : Logged (Registry σ) := do
  Logged.log (.registering n c.kind)
  if (r.lookup n).isSome then
    Logged.log (.overwriting n)
  let b := (Binding.ofCallable n c).injectAll r.globals.entries
  return { r.put b with revision := r.revision + 1 }

/-- Registers a stand-in for a binding at the address `endpoint`. -/
def registerRemote (r : Registry σ) (n : QualifiedName) (endpoint : String)
    (remote : QualifiedName) (signature : String) (transport : Transport σ) :
    Logged (Except RegistrationError (Registry σ)) :=
  match Remote.Url.parse endpoint with
  | .error fault => pure (.error (.invalidEndpoint endpoint fault.message))
  | .ok url =>
    Except.ok <$> r.register n (.proxy ⟨url, remote.interface, remote.method, signature, transport⟩)

def defaultName (r : Registry σ) : QualifiedName :=
  ⟨r.config.defaultInterface, r.config.defaultMethod⟩

def exposeFunction (r : Registry σ) (op : Operation σ) : Logged (Registry σ) :=
  r.register r.defaultName (.function op)

/-- Takes a method out of an interface, and the interface with its last method. -/
def dropMethod (interfaces : Dict (Dict (Binding σ))) (n : QualifiedName) :
    Dict (Dict (Binding σ)) :=
  let methods := ((interfaces.get? n.interface).getD .empty).erase n.method
  if methods.isEmpty then interfaces.erase n.interface
  else interfaces.insert n.interface methods

/-- Removes a binding; the removed one is given back. -/
def remove (r : Registry σ) (n : QualifiedName) : Logged (Registry σ × Option (Binding σ)) :=
  match r.lookup n with
  | none => pure (r, none)
  | some b => do
    Logged.log (.removedBinding n)
    let interfaces := dropMethod r.interfaces n
    return ({ r with interfaces, revision := r.revision + 1 }, some b)

/-- Removes an interface; the number of its bindings is given back. -/
def removeInterface (r : Registry σ) (interface : String) : Logged (Registry σ × Nat) :=
  match r.interfaces.get? interface with
  | none => pure (r, 0)
  | some methods => do
    Logged.log (.removedInterface interface methods.size)
    let interfaces := r.interfaces.erase interface
    return ({ r with interfaces, revision := r.revision + methods.size }, methods.size)

/-- Changes the configuration of one binding; nothing happens if there is none. -/
def update (r : Registry σ) (n : QualifiedName) (f : Binding σ → Binding σ) : Registry σ :=
  match r.interfaces.get? n.interface with
  | none => r
  | some methods =>
    match methods.get? n.method with
    | none => r
    | some b =>
      let methods := methods.insert n.method (f b)
      { r with interfaces := r.interfaces.insert n.interface methods }

def inject (r : Registry σ) (n : QualifiedName) (i : Injected) : Registry σ :=
  r.update n (·.inject i)

def addFilter (r : Registry σ) (n : QualifiedName) (f : Filter σ) : Registry σ :=
  r.update n (·.addFilter f)

def clearFilters (r : Registry σ) (n : QualifiedName) : Registry σ :=
  r.update n (·.clearFilters)

/-- Injects a value into every present and future binding. -/
def declareGlobal (r : Registry σ) (i : Injected) : Registry σ :=
  { r with
    interfaces := r.interfaces.map (fun _ methods => methods.map (fun _ b => b.inject i))
    globals := r.globals.insertEntry i }

def registerConverter (r : Registry σ) (t : Ty) (c : Converter) : Logged (Registry σ) := do
  return { r with converters := ← r.converters.register t c }

/-- Invokes the binding under a name with the injections and arguments of a call. -/
def invoke (r : Registry σ) (n : QualifiedName) (call : Injections) (args : List Value) :
    Action σ (Except InvokeError Value) :=
  match r.lookup n with
  | none => return .error (.notFound n)
  | some b => BindingRegistry.invoke b r.converters call args

def debugText (r : Registry σ) : String :=
  "Registry \x7b bindings: " ++ Decimal.natText r.size ++ ", revision: " ++
    Decimal.natText r.revision ++ ", global: " ++ typeSetText r.globals.types ++
    ", converters: " ++ typeSetText r.converters.types ++
    ", config: RegistryConfig \x7b default_interface: " ++ Text.quote r.config.defaultInterface ++
    ", default_method: " ++ Text.quote r.config.defaultMethod ++ ", default_converters: " ++
    (if r.config.defaultConverters then "true" else "false") ++ " \x7d \x7d"

end Registry

end BindingRegistry
