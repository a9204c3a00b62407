import BindingRegistry.Registry

/-!
The description of a registry: one line for each binding, sorted by interface
and method, so that it does not matter in which order the bindings come.
-/
namespace BindingRegistry

structure Descriptor where
  name : String
  interface : String
  method : String
  kind : Kind
  signature : String
  deriving DecidableEq, Repr

/-- Whether a line may stand before another: by interface, then by method. -/
def Descriptor.notAfter (d e : Descriptor) : Bool :=
  d.interface < e.interface || (d.interface = e.interface && d.method ≤ e.method)

def Binding.descriptor (b : Binding σ) : Descriptor :=
  ⟨b.name.text, b.name.interface, b.name.method, b.kind, b.signature⟩

def descriptors (bs : List (Binding σ)) : List Descriptor :=
  (bs.map Binding.descriptor).mergeSort Descriptor.notAfter

def Registry.describe (r : Registry σ) : List Descriptor := descriptors r.bindings

end BindingRegistry
