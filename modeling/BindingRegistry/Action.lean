import BindingRegistry.Event

/-!
Computations that report events, and computations that also read and change
the host's world. The second kind is what functions, filters and transports
are; everything else at most reports. What was reported cannot be read back,
so the result of a computation depends on the world alone.
-/
namespace BindingRegistry

/-- A value and the events reported on the way to it, oldest first. -/
structure Logged (α : Type u) where
  events : List Event
  value : α

namespace Logged

def log (e : Event) : Logged Unit := ⟨[e], ()⟩

instance : Monad Logged where
  pure a := ⟨[], a⟩
  bind x f := ⟨x.events ++ (f x.value).events, (f x.value).value⟩

@[simp] theorem value_pure (a : α) : (pure a : Logged α).value = a := rfl
@[simp] theorem value_bind (x : Logged α) (f : α → Logged β) :
    (x >>= f).value = (f x.value).value := rfl
@[simp] theorem value_map (f : α → β) (x : Logged α) : (f <$> x).value = f x.value := rfl

end Logged

abbrev Action (σ : Type) := StateT σ Logged

namespace Action

variable {σ : Type}

def log (e : Event) : Action σ Unit := fun s => ⟨[e], ((), s)⟩

/-- Reports the events of a computation that leaves the world alone. -/
def ofLogged (x : Logged α) : Action σ α := fun s => ⟨x.events, (x.value, s)⟩

def onWorld (f : σ → α × σ) : Action σ α := fun s => ⟨[], f s⟩

def ask (f : σ → α) : Action σ α := onWorld fun s => (f s, s)

def change (f : σ → σ) : Action σ Unit := onWorld fun s => ((), f s)

/-- What a computation gives and the world it leaves, whatever it reports. -/
def result (a : Action σ α) (s : σ) : α × σ := (a.run s).value

@[simp] theorem result_pure (a : α) (s : σ) : (pure a : Action σ α).result s = (a, s) := rfl
@[simp] theorem result_bind (x : Action σ α) (f : α → Action σ β) (s : σ) :
    (x >>= f).result s = (f (x.result s).1).result (x.result s).2 := rfl
@[simp] theorem result_log (e : Event) (s : σ) : (log e).result s = ((), s) := rfl
@[simp] theorem result_ofLogged (x : Logged α) (s : σ) : (ofLogged x).result s = (x.value, s) := rfl
@[simp] theorem result_onWorld (f : σ → α × σ) (s : σ) : (onWorld f).result s = f s := rfl
@[simp] theorem result_ask (f : σ → α) (s : σ) : (ask f).result s = (f s, s) := rfl
@[simp] theorem result_change (f : σ → σ) (s : σ) : (change f).result s = ((), f s) := rfl

end Action

end BindingRegistry
