import BindingRegistry.Callable

/-!
Bindings: callables under a name, with what was configured for them.
Each parameter is marked as injected or not. A parameter that takes the name
of the binding is marked from the start; an injection marks every parameter of
exactly its type and becomes the default for them.
-/
namespace BindingRegistry

/-- What a filter sees of a binding. -/
structure Outline where
  name : QualifiedName
  kind : Kind
  params : List Ty
  marks : List Bool

/-- A predicate run before a call; it may change the injections of the call. -/
abbrev Filter (σ : Type) := Outline → Injections → Action σ (Bool × Injections)

structure Binding (σ : Type) where
  name : QualifiedName
  callable : Callable σ
  marks : List Bool
  marks_length : marks.length = callable.params.length
  /-- Defaults for injected parameters, and values for filters and handlers. -/
  singletons : Injections
  filters : List (Filter σ)

/-- The positions of the true marks, counted from `i`. -/
def positionsOf (i : Nat) : List Bool → List Nat
  | [] => []
  | m :: ms => if m then i :: positionsOf (i + 1) ms else positionsOf (i + 1) ms

namespace Binding

variable {σ : Type}

/-- A callable under a name, without defaults and filters. -/
def ofCallable (name : QualifiedName) (c : Callable σ) : Binding σ where
  name := name
  callable := c
  marks := c.params.map (· = .name)
  marks_length := by simp
  singletons := .empty
  filters := []

def params (b : Binding σ) : List Ty := b.callable.params
def kind (b : Binding σ) : Kind := b.callable.kind

def outline (b : Binding σ) : Outline := ⟨b.name, b.kind, b.params, b.marks⟩

def slots (b : Binding σ) : List (Ty × Bool) := b.params.zip b.marks

/-- The parameters a caller has to send, in order. -/
def visible (b : Binding σ) : List Ty := (b.slots.filter (fun p => !p.2)).map (·.1)

def injectedPositions (b : Binding σ) : List Nat := positionsOf 0 b.marks
def injectedCount (b : Binding σ) : Nat := b.marks.count true

def signature (b : Binding σ) : String := b.callable.signature b.visible

/-- Marks the parameters of the value's type and makes the value their default. -/
def inject (b : Binding σ) (i : Injected) : Binding σ where
  name := b.name
  callable := b.callable
  marks := List.zipWith (fun t m => m || t = i.1) b.callable.params b.marks
  marks_length := by simp [b.marks_length]
  singletons := b.singletons.insertEntry i
  filters := b.filters

def injectAll (b : Binding σ) (is : List Injected) : Binding σ := is.foldl inject b

def addFilter (b : Binding σ) (f : Filter σ) : Binding σ := { b with filters := b.filters ++ [f] }

def clearFilters (b : Binding σ) : Binding σ := { b with filters := [] }

def positionsText (ps : List Nat) : String :=
  "[" ++ String.intercalate ", " (ps.map Decimal.natText) ++ "]"

def debugText (b : Binding σ) : String :=
  "Binding \x7b name: " ++ Text.quote b.name.text ++ ", kind: " ++ b.kind.title ++
    ", params: [" ++ String.intercalate ", " (b.params.map Ty.display) ++ "], injected: " ++
    positionsText b.injectedPositions ++ ", singletons: " ++ typeSetText b.singletons.types ++
    ", filters: " ++ Decimal.natText b.filters.length ++ " \x7d"

end Binding

end BindingRegistry
