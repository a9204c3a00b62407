import BindingRegistry.Registry

/-!
Building a registry from settings given one by one. Converters given to the
builder take precedence over the built-in ones, whenever they were given.
-/
namespace BindingRegistry

structure Builder where
  config : Config := {}
  converters : Converters := .empty
  globals : Injections := .empty

namespace Builder

def withConfig (b : Builder) (c : Config) : Builder := { b with config := c }

def withDefaultInterface (b : Builder) (name : String) : Builder :=
  { b with config := { b.config with defaultInterface := name } }

def withDefaultMethod (b : Builder) (name : String) : Builder :=
  { b with config := { b.config with defaultMethod := name } }

def withDefaultConverters (b : Builder) (enabled : Bool) : Builder :=
  { b with config := { b.config with defaultConverters := enabled } }

def withConverter (b : Builder) (t : Ty) (c : Converter) : Logged Builder := do
  return { b with converters := ← b.converters.register t c }

def withGlobal (b : Builder) (i : Injected) : Builder :=
  { b with globals := b.globals.insertEntry i }

inductive Setting where
  | config (c : Config)
  | defaultInterface (name : String)
  | defaultMethod (name : String)
  | defaultConverters (enabled : Bool)
  | converter (t : Ty) (c : Converter)
  | global (i : Injected)

def apply (b : Builder) : Setting → Logged Builder
  | .config c => pure (b.withConfig c)
  | .defaultInterface name => pure (b.withDefaultInterface name)
  | .defaultMethod name => pure (b.withDefaultMethod name)
  | .defaultConverters enabled => pure (b.withDefaultConverters enabled)
  | .converter t c => b.withConverter t c
  | .global i => pure (b.withGlobal i)

def build (b : Builder) : Logged (Registry σ) := do
  let builtin ← if b.config.defaultConverters then Converters.install .empty else pure .empty
  return { globals := b.globals, converters := builtin.extend b.converters, config := b.config }

/-- The registry after a sequence of calls to a new builder. -/
def registryOf (settings : List Setting) : Logged (Registry σ) := do
  (← settings.foldlM apply {}).build

end Builder

def Registry.fresh : Logged (Registry σ) := Builder.build {}

end BindingRegistry
