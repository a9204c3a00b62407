import BindingRegistry.Proofs.Registry.Lookup
import BindingRegistry.Registry.Builder

/-!
Histories of registries. A registry comes from a builder and goes through any
sequence of changes; one that finds nothing to do, or is refused, leaves it as
it was. Whatever registration, removal, configuration and declaration of
globals preserve holds of every registry that can be reached.
-/
namespace BindingRegistry

variable {σ : Type}

/-- The converters that a registry has before any are given. -/
def Converters.builtIn (enabled : Bool) : Converters :=
  if enabled then (install .empty).value else .empty

/-- The built registry has the builder's settings and values, and its converters above the built-in
ones. -/
theorem Builder.build_value (b : Builder) : (b.build : Logged (Registry σ)).value =
    { globals := b.globals
      converters := (Converters.builtIn b.config.defaultConverters).extend b.converters
      config := b.config } := by
  rw [build, Converters.builtIn]
  split
  · rfl
  · rfl

/-- The builder after a sequence of calls to a new one. -/
def Builder.ofSettings (settings : List Builder.Setting) : Builder :=
  (settings.foldlM apply {}).value

theorem Builder.registryOf_value (settings : List Builder.Setting) :
    (registryOf settings : Logged (Registry σ)).value = (ofSettings settings).build.value := rfl

inductive Adjustment (σ : Type) where
  | inject (i : Injected)
  | addFilter (f : Filter σ)
  | clearFilters

def Adjustment.apply : Adjustment σ → Binding σ → Binding σ
  | inject i, b => b.inject i
  | addFilter f, b => b.addFilter f
  | clearFilters, b => b.clearFilters

inductive Change (σ : Type) where
  | register (n : QualifiedName) (c : Callable σ)
  | registerRemote (n : QualifiedName) (endpoint : String) (remote : QualifiedName)
    (signature : String) (transport : Transport σ)
  | exposeFunction (op : Operation σ)
  | expose (interface : String) (wanted : String → Bool) (members : List (Member σ))
  | adjust (n : QualifiedName) (a : Adjustment σ)
  | adjustEach (names : List QualifiedName) (a : Adjustment σ)
  | remove (n : QualifiedName)
  | removeInterface (interface : String)
  | removeEach (names : List QualifiedName)
  | declareGlobal (i : Injected)
  | registerConverter (t : Ty) (c : Converter)
  | unregisterConverter (t : Ty)
  | extendConverters (cs : Converters)

namespace Registry

def apply (r : Registry σ) : Change σ → Registry σ
  | .register n c => (r.register n c).value
  | .registerRemote n endpoint remote signature transport =>
    match (r.registerRemote n endpoint remote signature transport).value with
    | .ok r' => r'
    | .error _ => r
  | .exposeFunction op => (r.exposeFunction op).value
  | .expose interface wanted members => (r.expose interface wanted members).value.1
  | .adjust n a => r.update n a.apply
  | .adjustEach names a => r.updateEach names a.apply
  | .remove n => (r.remove n).value.1
  | .removeInterface interface => (r.removeInterface interface).value.1
  | .removeEach names => (r.removeEach names).value.1
  | .declareGlobal i => r.declareGlobal i
  | .registerConverter t c => (r.registerConverter t c).value
  | .unregisterConverter t => { r with converters := r.converters.erase t }
  | .extendConverters cs => { r with converters := r.converters.extend cs }

/-- A registry that a builder and a sequence of changes can lead to. -/
inductive Reachable : Registry σ → Prop where
  | built (settings : List Builder.Setting) : Reachable (Builder.registryOf settings).value
  | changed {r : Registry σ} (c : Change σ) : Reachable r → Reachable (r.apply c)

section

variable {holds : Registry σ → Prop}

theorem expose_induction {r : Registry σ}
    (register : ∀ r n c, holds r → holds (r.register n c).value) (interface : String)
    (wanted : String → Bool) (members : List (Member σ)) (h : holds r) :
    holds (r.expose interface wanted members).value.1 := by
  induction members generalizing r with
  | nil => exact h
  | cons m ms ih =>
    rw [expose]
    split
    · exact ih h
    · split
      · exact ih h
      · exact ih (register _ _ _ h)

theorem removeEach_induction {r : Registry σ}
    (remove : ∀ r n, holds r → holds (r.remove n).value.1) (names : List QualifiedName)
    (h : holds r) : holds (r.removeEach names).value.1 := by
  induction names generalizing r with
  | nil => exact h
  | cons n ns ih => exact ih (remove r n h)

theorem updateEach_induction {r : Registry σ} {f : Binding σ → Binding σ}
    (update : ∀ r n, holds r → holds (r.update n f)) (names : List QualifiedName)
    (h : holds r) : holds (r.updateEach names f) := by
  induction names generalizing r with
  | nil => exact h
  | cons n ns ih => exact ih (update r n h)

/-- Every change is made of registrations, removals, adjustments of single bindings, declarations
of globals and replacements of the converters. -/
theorem apply_induction {r : Registry σ}
    (register : ∀ r n c, holds r → holds (r.register n c).value)
    (remove : ∀ r n, holds r → holds (r.remove n).value.1)
    (removeInterface : ∀ r i, holds r → holds (r.removeInterface i).value.1)
    (adjust : ∀ r n (a : Adjustment σ), holds r → holds (r.update n a.apply))
    (declareGlobal : ∀ r i, holds r → holds (r.declareGlobal i))
    (converters : ∀ (r : Registry σ) cs, holds r → holds { r with converters := cs })
    (c : Change σ) (h : holds r) : holds (r.apply c) := by
  cases c with
  | register n c => exact register r n c h
  | registerRemote n endpoint remote signature transport =>
    simp only [apply, registerRemote]
    split
    · next r' hr =>
      split at hr
      · cases hr
      · cases hr
        exact register r n _ h
    · exact h
  | exposeFunction op => exact register r _ _ h
  | expose interface wanted members => exact expose_induction register interface wanted members h
  | adjust n a => exact adjust r n a h
  | adjustEach names a => exact updateEach_induction (fun r n => adjust r n a) names h
  | remove n => exact remove r n h
  | removeInterface interface => exact removeInterface r interface h
  | removeEach names => exact removeEach_induction remove names h
  | declareGlobal i => exact declareGlobal r i h
  | registerConverter t c => exact converters r _ h
  | unregisterConverter t => exact converters r _ h
  | extendConverters cs => exact converters r _ h

end

/-- Every binding of the registry has the property. -/
def Throughout (r : Registry σ) (P : Binding σ → Prop) : Prop :=
  ∀ n b, r.lookup n = some b → P b

section

variable {P : Binding σ → Prop}

/-- A builder makes a registry without bindings. -/
theorem interfaces_built (settings : List Builder.Setting) :
    (Builder.registryOf settings : Logged (Registry σ)).value.interfaces = .empty := by
  rw [Builder.registryOf_value, Builder.build_value]

theorem lookup_built (settings : List Builder.Setting) (n : QualifiedName) :
    (Builder.registryOf settings : Logged (Registry σ)).value.lookup n = none := by
  rw [lookup, interfaces_built]
  rfl

theorem throughout_built (settings : List Builder.Setting) :
    Throughout (Builder.registryOf settings).value P := by
  intro n b hb
  rw [lookup_built] at hb
  cases hb

theorem injectAll_induction {b : Binding σ} (inject : ∀ b i, P b → P (b.inject i))
    (is : List Injected) (h : P b) : P (b.injectAll is) := by
  induction is generalizing b with
  | nil => exact h
  | cons i is ih => exact ih (inject b i h)

theorem throughout_register (new : ∀ n c, P (.ofCallable n c))
    (inject : ∀ b i, P b → P (b.inject i)) {r : Registry σ} (n : QualifiedName) (c : Callable σ)
    (h : r.Throughout P) : (r.register n c).value.Throughout P := by
  intro m b hb
  rw [lookup_register] at hb
  split at hb
  · cases hb
    exact injectAll_induction inject r.globals.entries (new n c)
  · exact h m b hb

theorem throughout_remove {r : Registry σ} (n : QualifiedName) (h : r.Throughout P) :
    (r.remove n).value.1.Throughout P := by
  intro m b hb
  rw [lookup_remove] at hb
  split at hb
  · cases hb
  · exact h m b hb

theorem throughout_removeInterface {r : Registry σ} (i : String) (h : r.Throughout P) :
    (r.removeInterface i).value.1.Throughout P := by
  intro m b hb
  rw [lookup_removeInterface] at hb
  split at hb
  · cases hb
  · exact h m b hb

theorem throughout_update {r : Registry σ} {f : Binding σ → Binding σ}
    (hf : ∀ b, P b → P (f b)) (n : QualifiedName) (h : r.Throughout P) :
    (r.update n f).Throughout P := by
  intro m b hb
  rw [lookup_update] at hb
  split at hb
  · obtain ⟨b', hb', rfl⟩ := Option.map_eq_some_iff.1 hb
    exact hf b' (h n b' hb')
  · exact h m b hb

theorem throughout_declareGlobal (inject : ∀ b i, P b → P (b.inject i)) {r : Registry σ}
    (i : Injected) (h : r.Throughout P) : (r.declareGlobal i).Throughout P := by
  intro m b hb
  rw [lookup_declareGlobal] at hb
  obtain ⟨b', hb', rfl⟩ := Option.map_eq_some_iff.1 hb
  exact inject b' i (h m b' hb')

/-- What new bindings have and adjustments of a binding preserve, every binding of a reachable
registry has. -/
theorem Reachable.throughout (new : ∀ n c, P (.ofCallable n c))
    (adjust : ∀ b (a : Adjustment σ), P b → P (a.apply b)) {r : Registry σ} (hr : Reachable r) :
    r.Throughout P := by
  have inject : ∀ b i, P b → P (b.inject i) := fun b i => adjust b (.inject i)
  induction hr with
  | built settings => exact throughout_built settings
  | changed c _ ih =>
    refine @apply_induction σ (Throughout · P) _ ?_ ?_ ?_ ?_ ?_ ?_ c ih
    · exact fun _ n c => throughout_register new inject n c
    · exact fun _ n => throughout_remove n
    · exact fun _ i => throughout_removeInterface i
    · exact fun _ n a => throughout_update (fun b => adjust b a) n
    · exact fun _ i => throughout_declareGlobal inject i
    · exact fun _ _ h => h

end

end Registry

end BindingRegistry
