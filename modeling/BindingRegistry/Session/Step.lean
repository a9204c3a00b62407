import BindingRegistry.Catalogue.Filters
import BindingRegistry.Catalogue.Given
import BindingRegistry.Catalogue.Objects
import BindingRegistry.Catalogue.Rules
import BindingRegistry.Registry.Builder
import BindingRegistry.Registry.Describe

/-!
What a host can ask of a session, step by step, and what it is told.
-/
namespace BindingRegistry.Session

open Catalogue

inductive Route where
  | backend (id : String)
  | mock (id : String) (canned : Canned)

def Route.id : Route → String
  | backend id | mock id _ => id

inductive GroupStep where
  | inject (i : Injected)
  | filter (f : FilterChoice)
  | clearFilters
  | countParams
  | remove

inductive Scope where
  | all
  | interface (name : String)
  | matching (pattern : String)

inductive Wanted where
  | all
  | named (name : String)
  | matching (pattern : String)

inductive Announced where
  | methods
  | getters

inductive Path where
  | registry
  | binding
  | own (rules : List Rule)

inductive Step where
  | build (settings : List Builder.Setting)
  | freeze (id : String)
  | config
  | register (n : QualifiedName) (c : Callable World)
  | registerCounted (n : QualifiedName) (op : Operation World)
  | exposeFunction (op : Operation World)
  | registerRemote (n : QualifiedName) (endpoint : String) (remote : QualifiedName)
    (signature : String) (route : Route)
  | registerProxy (n : QualifiedName) (endpoint signature : String) (route : Route)
  | calls (id : String)
  | createObject (id type : String) (init : Value)
  | poke (id : String) (n : Word .i64)
  | expose (object : String) (interface : Option String) (announced : Announced)
    (wanted : Wanted) (steps : List GroupStep)
  | lookup (n : QualifiedName)
  | signature (n : QualifiedName)
  | names
  | describe
  | debug
  | remove (n : QualifiedName)
  | removeInterface (interface : String)
  | inject (n : QualifiedName) (i : Injected)
  | addFilter (n : QualifiedName) (f : FilterChoice)
  | clearFilters (n : QualifiedName)
  | declareGlobal (i : Injected)
  | globals
  | select (scope : Scope) (steps : List GroupStep)
  | registerConverter (rules : List Rule)
  | unregisterConverter (t : Ty)
  | extendConverters (rules : List Rule)
  | convert (t : Ty) (v : Value)
  | notes
  | resetNotes
  | invoke (n : QualifiedName) (args : List Value) (injections : List Injected) (path : Path)

structure GroupReport where
  names : List QualifiedName
  params : Option Nat := none
  removed : Option Nat := none

def GroupReport.texts (g : GroupReport) : List String :=
  (g.names.map QualifiedName.text).mergeSort (· ≤ ·)

inductive Reply where
  | nothing
  | unknown (id : String)
  | flag (b : Bool)
  | number (n : Int)
  | text (s : String)
  | config (c : Config)
  | counted (signature : String) (arity : Nat)
  | exposed (n : QualifiedName) (signature : String)
  | standIn (p : Proxy World)
  | calls (cs : List RemoteCall)
  | binding (b : Binding World)
  | noBinding
  | names (interfaces : List (String × List String)) (bindings missing : Nat)
  | descriptors (ds : List Descriptor)
  | listing (entries : List (String × Value))
  | shown (v : Option Value)
  | replaced (i : Injected) (earlier : Option Value)
  | globals (count : Nat)
  | group (g : GroupReport)
  | refused (e : RegistrationError)
  | converted (outcome : Except ConvertError Value)
  | outcome (o : Except InvokeError Value)
  | notes (w : World)

end BindingRegistry.Session
