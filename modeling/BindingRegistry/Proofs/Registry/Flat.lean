import BindingRegistry.Proofs.Registry.Enumeration
import Mathlib.Logic.Function.Basic

/-!
Registries as flat maps. Seen from outside, the two levels of a registry are one
map from whole names to bindings: a registration inserts, a removal deletes one
name, all names of an interface or all names of a group, and nothing of the two
levels shows. A registry and the flat map that goes through the same changes
answer alike after any number of them.
-/
namespace BindingRegistry

variable {σ : Type}

/-- Bindings under whole names. -/
abbrev FlatMap (σ : Type) := QualifiedName → Option (Binding σ)

namespace FlatMap

def names (m : FlatMap σ) : Set QualifiedName := {n | (m n).isSome = true}

def insert (m : FlatMap σ) (n : QualifiedName) (b : Binding σ) : FlatMap σ :=
  Function.update m n (some b)

def erase (m : FlatMap σ) (n : QualifiedName) : FlatMap σ := Function.update m n none

def eraseInterface (m : FlatMap σ) (interface : String) : FlatMap σ :=
  fun n => if n.interface = interface then none else m n

def eraseEach (m : FlatMap σ) (names : List QualifiedName) : FlatMap σ :=
  fun n => if n ∈ names then none else m n

/-- Changes the binding under a name, if there is one. -/
def alter (m : FlatMap σ) (n : QualifiedName) (f : Binding σ → Binding σ) : FlatMap σ :=
  Function.update m n ((m n).map f)

theorem insert_apply (m : FlatMap σ) (n k : QualifiedName) (b : Binding σ) :
    m.insert n b k = if k = n then some b else m k := Function.update_apply m n (some b) k

theorem erase_apply (m : FlatMap σ) (n k : QualifiedName) :
    m.erase n k = if k = n then none else m k := Function.update_apply m n none k

theorem alter_apply (m : FlatMap σ) (n k : QualifiedName) (f : Binding σ → Binding σ) :
    m.alter n f k = if k = n then (m n).map f else m k :=
  Function.update_apply m n ((m n).map f) k

theorem eraseEach_cons (m : FlatMap σ) (n : QualifiedName) (ns : List QualifiedName) :
    m.eraseEach (n :: ns) = (m.erase n).eraseEach ns := by
  funext k
  by_cases hk : k = n
  · simp [eraseEach, erase_apply, hk]
  · simp [eraseEach, erase_apply, hk]

end FlatMap

@[ext] structure Flat (σ : Type) where
  bindings : FlatMap σ
  globals : Injections
  defaultName : QualifiedName

def Member.exposed (wanted : String → Bool) (members : List (Member σ)) : List (Member σ) :=
  members.filter (fun m => wanted m.name && decide (m.arity ≤ 1))

namespace Flat

def put (f : Flat σ) (n : QualifiedName) (c : Callable σ) : Flat σ :=
  { f with bindings := f.bindings.insert n ((Binding.ofCallable n c).injectAll f.globals.entries) }

def apply (f : Flat σ) : Change σ → Flat σ
  | .register n c => f.put n c
  | .registerRemote n endpoint remote signature transport =>
    match Remote.Url.parse endpoint with
    | .ok url => f.put n (.proxy ⟨url, remote.interface, remote.method, signature, transport⟩)
    | .error _ => f
  | .exposeFunction op => f.put f.defaultName (.function op)
  | .expose interface wanted members =>
    (Member.exposed wanted members).foldl (fun f m => f.put ⟨interface, m.name⟩ m.callable) f
  | .adjust n a => { f with bindings := f.bindings.alter n a.apply }
  | .adjustEach names a =>
    { f with bindings := names.foldl (fun m n => m.alter n a.apply) f.bindings }
  | .remove n => { f with bindings := f.bindings.erase n }
  | .removeInterface interface => { f with bindings := f.bindings.eraseInterface interface }
  | .removeEach names => { f with bindings := f.bindings.eraseEach names }
  | .declareGlobal i =>
    { f with
      bindings := fun n => (f.bindings n).map (·.inject i)
      globals := f.globals.insertEntry i }
  | .registerConverter .. | .unregisterConverter _ | .extendConverters _ => f

/-- The empty flat map with the settings of a builder. -/
def start (settings : List Builder.Setting) : Flat σ where
  bindings := fun _ => none
  globals := (Builder.registryOf settings : Logged (Registry σ)).value.globals
  defaultName := (Builder.registryOf settings : Logged (Registry σ)).value.defaultName

def after (settings : List Builder.Setting) (changes : List (Change σ)) : Flat σ :=
  changes.foldl apply (start settings)

end Flat

namespace Registry

def after (settings : List Builder.Setting) (changes : List (Change σ)) : Registry σ :=
  changes.foldl apply (Builder.registryOf settings).value

theorem reachable_after (settings : List Builder.Setting) (changes : List (Change σ)) :
    (after settings changes).Reachable := by
  have hrun (r : Registry σ) (hr : r.Reachable) : (changes.foldl apply r).Reachable := by
    induction changes generalizing r with
    | nil => exact hr
    | cons c cs ih => exact ih (r.apply c) (.changed c hr)
  exact hrun _ (.built settings)

def flat (r : Registry σ) : Flat σ := ⟨r.lookup, r.globals, r.defaultName⟩

section

variable (r : Registry σ)

theorem flat_register (n : QualifiedName) (c : Callable σ) :
    (r.register n c).value.flat = r.flat.put n c := by
  have hlookup : (r.register n c).value.lookup = FlatMap.insert r.lookup n (r.registered n c) := by
    funext m
    rw [lookup_register, FlatMap.insert_apply]
  rw [flat, hlookup, register_value]
  rfl

theorem flat_update (n : QualifiedName) (f : Binding σ → Binding σ) :
    (r.update n f).flat = { r.flat with bindings := r.flat.bindings.alter n f } := by
  have hlookup : (r.update n f).lookup = FlatMap.alter r.lookup n f := by
    funext m
    rw [lookup_update, FlatMap.alter_apply]
  have hrest := r.sameRest_update n f
  exact Flat.ext hlookup hrest.globals hrest.defaultName

theorem flat_updateEach (names : List QualifiedName) (f : Binding σ → Binding σ) :
    (r.updateEach names f).flat =
      { r.flat with bindings := names.foldl (fun m n => m.alter n f) r.flat.bindings } := by
  rw [updateEach]
  induction names generalizing r with
  | nil => rfl
  | cons n ns ih => rw [List.foldl_cons, ih, flat_update, List.foldl_cons]

theorem flat_remove (n : QualifiedName) :
    (r.remove n).value.1.flat = { r.flat with bindings := r.flat.bindings.erase n } := by
  have hlookup : (r.remove n).value.1.lookup = FlatMap.erase r.lookup n := by
    funext m
    rw [lookup_remove, FlatMap.erase_apply]
  have hrest := r.sameRest_remove n
  exact Flat.ext hlookup hrest.globals hrest.defaultName

theorem flat_removeInterface (i : String) :
    (r.removeInterface i).value.1.flat =
      { r.flat with bindings := r.flat.bindings.eraseInterface i } := by
  have hlookup : (r.removeInterface i).value.1.lookup = FlatMap.eraseInterface r.lookup i := by
    funext m
    rw [lookup_removeInterface]
    rfl
  have hrest := r.sameRest_removeInterface i
  exact Flat.ext hlookup hrest.globals hrest.defaultName

theorem flat_removeEach (names : List QualifiedName) :
    (r.removeEach names).value.1.flat =
      { r.flat with bindings := r.flat.bindings.eraseEach names } := by
  induction names generalizing r with
  | nil =>
    refine Flat.ext ?_ rfl rfl
    funext m
    simp [FlatMap.eraseEach, removeEach]
  | cons n ns ih =>
    have hstep : (r.removeEach (n :: ns)).value.1 =
        ((r.remove n).value.1.removeEach ns).value.1 := rfl
    rw [hstep, ih, flat_remove, FlatMap.eraseEach_cons]

/-- An exposure is the registration of its members one after the other, and gives their names. -/
theorem expose_value_eq (interface : String) (wanted : String → Bool) (members : List (Member σ)) :
    (r.expose interface wanted members).value = ((Member.exposed wanted members).foldl
        (fun r m => (r.register ⟨interface, m.name⟩ m.callable).value) r,
      (Member.exposed wanted members).map fun m => ⟨interface, m.name⟩) := by
  induction members generalizing r with
  | nil => rfl
  | cons m ms ih =>
    rw [expose]
    by_cases hw : wanted m.name = true
    · by_cases ha : m.arity ≤ 1
      · have hmem : Member.exposed wanted (m :: ms) = m :: Member.exposed wanted ms :=
          List.filter_cons_of_pos (by simp [hw, ha])
        rw [if_neg (by simpa using hw), if_neg (Nat.not_lt.2 ha), hmem, List.map_cons,
          List.foldl_cons, Logged.value_bind, Logged.value_bind, ih]
        rfl
      · have hskip : Member.exposed wanted (m :: ms) = Member.exposed wanted ms :=
          List.filter_cons_of_neg (by simp [ha])
        rw [if_neg (by simpa using hw), if_pos (Nat.lt_of_not_le ha), hskip]
        exact ih r
    · have hskip : Member.exposed wanted (m :: ms) = Member.exposed wanted ms :=
        List.filter_cons_of_neg (by simp [hw])
      rw [if_pos (by simpa using hw), hskip]
      exact ih r

theorem expose_value (interface : String) (wanted : String → Bool) (members : List (Member σ)) :
    (r.expose interface wanted members).value.1 = (Member.exposed wanted members).foldl
      (fun r m => (r.register ⟨interface, m.name⟩ m.callable).value) r :=
  congrArg Prod.fst (expose_value_eq r interface wanted members)

theorem flat_expose (interface : String) (wanted : String → Bool) (members : List (Member σ)) :
    (r.expose interface wanted members).value.1.flat = (Member.exposed wanted members).foldl
      (fun f m => f.put ⟨interface, m.name⟩ m.callable) r.flat := by
  rw [expose_value]
  induction Member.exposed wanted members generalizing r with
  | nil => rfl
  | cons m ms ih => rw [List.foldl_cons, ih, flat_register, List.foldl_cons]

theorem flat_declareGlobal (i : Injected) :
    (r.declareGlobal i).flat = r.flat.apply (.declareGlobal i) := by
  refine Flat.ext ?_ rfl rfl
  funext n
  exact lookup_declareGlobal r i n

/-- A change of a registry is the same change of its flat map. -/
theorem flat_apply (c : Change σ) : (r.apply c).flat = r.flat.apply c := by
  cases c with
  | register n c => exact flat_register r n c
  | registerRemote n endpoint remote signature transport =>
    rw [apply, registerRemote, Flat.apply]
    cases Remote.Url.parse endpoint with
    | error fault => rfl
    | ok url => exact flat_register r n _
  | exposeFunction op => exact flat_register r _ _
  | expose interface wanted members => exact flat_expose r interface wanted members
  | adjust n a => exact flat_update r n a.apply
  | adjustEach names a => exact flat_updateEach r names a.apply
  | remove n => exact flat_remove r n
  | removeInterface i => exact flat_removeInterface r i
  | removeEach names => exact flat_removeEach r names
  | declareGlobal i => exact flat_declareGlobal r i
  | registerConverter | unregisterConverter | extendConverters => rfl

end

theorem flat_built (settings : List Builder.Setting) :
    (Builder.registryOf settings : Logged (Registry σ)).value.flat = Flat.start settings := by
  refine Flat.ext ?_ rfl rfl
  funext n
  exact lookup_built settings n

/-- A registry and a flat map that go through the same changes stay the same. -/
theorem flat_after (settings : List Builder.Setting) (changes : List (Change σ)) :
    (after settings changes).flat = Flat.after settings changes := by
  rw [after, Flat.after, ← flat_built]
  generalize (Builder.registryOf settings : Logged (Registry σ)).value = r
  induction changes generalizing r with
  | nil => rfl
  | cons c cs ih => rw [List.foldl_cons, ih, flat_apply, List.foldl_cons]

theorem lookup_after (settings : List Builder.Setting) (changes : List (Change σ)) :
    (after settings changes).lookup = (Flat.after settings changes).bindings :=
  congrArg Flat.bindings (flat_after settings changes)

end Registry

end BindingRegistry
