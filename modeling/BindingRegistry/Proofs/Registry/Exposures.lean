import BindingRegistry.Proofs.Registry.Defaults
import BindingRegistry.Proofs.Registry.Groups

/-!
What an exposure leaves. Of the members that an object announces, those count
whose name is wanted and that produce at most one value, and of several with
one name the last of those. Each gets a new binding, which has the injections
for all bindings and nothing of the binding it replaces; all else stays.
-/
namespace BindingRegistry

variable {σ : Type}

/-- A binding that has the injections for all bindings and was not configured. -/
def Binding.fresh (n : QualifiedName) (c : Callable σ) (globals : Injections) : Binding σ where
  name := n
  callable := c
  marks := c.params.map fun t => t = .name || globals.contains t
  marks_length := by simp
  singletons := globals
  filters := []

theorem marked_fresh (n : QualifiedName) (c : Callable σ) (globals : Injections) :
    (Binding.fresh n c globals).Marked := by
  intro p t hp
  change c.params[p]? = some t at hp
  have hm : (Binding.fresh n c globals).marks[p]? =
      some (decide (t = .name) || globals.contains t) := by
    rw [Binding.fresh, List.getElem?_map, hp]
    rfl
  rw [hm, Option.some.injEq, Bool.or_eq_true, decide_eq_true_iff]
  rfl

/-- The last of the members that goes under the name in the interface. -/
def Member.lastUnder (interface : String) (n : QualifiedName) (ms : List (Member σ)) :
    Option (Member σ) :=
  ms.reverse.find? fun m => n = ⟨interface, m.name⟩

theorem Member.lastUnder_cons (interface : String) (n : QualifiedName) (m : Member σ)
    (ms : List (Member σ)) : lastUnder interface n (m :: ms) =
      (lastUnder interface n ms).or (if n = ⟨interface, m.name⟩ then some m else none) := by
  rw [lastUnder, List.reverse_cons, List.find?_append, lastUnder, List.find?_singleton]
  by_cases h : n = ⟨interface, m.name⟩
  · simp only [h, decide_true, if_true]
  · simp only [h, decide_false, if_false, Bool.false_eq_true]

namespace Registry

/-- What a registry is after an exposure that registers these members, in this order. -/
structure Exposed (r : Registry σ) (interface : String) (ms : List (Member σ)) (r' : Registry σ) :
    Prop where
  lookup : ∀ n, r'.lookup n =
    ((Member.lastUnder interface n ms).map fun m => .fresh n m.callable r.globals).or (r.lookup n)
  revision : r'.revision = r.revision + ms.length
  rest : r.SameRest r'

/-- A registration keeps nothing of what its name had. -/
theorem registered_eq_fresh (r : Registry σ) (n : QualifiedName) (c : Callable σ) :
    r.registered n c = .fresh n c r.globals := by
  have hrest := injectAll_rest (Binding.ofCallable n c) r.globals.entries
  exact (Flat.marked_registered r.flat n c).eq (marked_fresh n c r.globals)
    (injectAll_name _ _) hrest.1 (Flat.registered_singletons r.flat n c) hrest.2

theorem exposed_nil (r : Registry σ) (interface : String) : r.Exposed interface [] r :=
  ⟨fun _ => rfl, rfl, .refl r⟩

/-- A member counts unless one that comes after it goes under the same name. -/
theorem Exposed.cons {r r' : Registry σ} {interface : String} {m : Member σ}
    {ms : List (Member σ)}
    (h : (r.register ⟨interface, m.name⟩ m.callable).value.Exposed interface ms r') :
    r.Exposed interface (m :: ms) r' where
  lookup n := by
    have hglobals := (sameRest_register r ⟨interface, m.name⟩ m.callable).globals
    rw [h.lookup, hglobals, Member.lastUnder_cons, Option.map_or, Option.or_assoc,
      lookup_register, registered_eq_fresh]
    split
    · next hn =>
      rw [hn]
      rfl
    · rfl
  revision := by
    rw [h.revision, register_value, List.length_cons, Nat.add_assoc, Nat.add_comm 1]
  rest := (sameRest_register r ⟨interface, m.name⟩ m.callable).trans h.rest

theorem exposed_registered (r : Registry σ) (interface : String) (ms : List (Member σ)) :
    r.Exposed interface ms
      (ms.foldl (fun r m => (r.register ⟨interface, m.name⟩ m.callable).value) r) := by
  induction ms generalizing r with
  | nil => exact exposed_nil r interface
  | cons m ms ih => exact .cons (ih (r.register ⟨interface, m.name⟩ m.callable).value)

/-- Whatever names are wanted, an exposure registers exactly the members that have one of them and
produce at most one value, in place of what had their names, and gives these names. A pattern
without text wants all names. -/
theorem expose_overwrites (r : Registry σ) (interface : String) (members : List (Member σ)) :
    (∀ wanted, r.Exposed interface (Member.exposed wanted members)
        (r.expose interface wanted members).value.1 ∧
      (r.expose interface wanted members).value.2 =
        (Member.exposed wanted members).map fun m => ⟨interface, m.name⟩) ∧
    r.exposePattern interface "" members = .ok (r.expose interface (fun _ => true) members) := by
  refine ⟨fun wanted => ?_, ?_⟩
  · rw [expose_value_eq]
    exact ⟨exposed_registered r interface _, rfl⟩
  · rw [exposePattern, admitted_empty]
    rfl

/-- A member that is skipped leaves its name to one before it. -/
example : Member.lastUnder "Jug" ⟨"Jug", "level"⟩ (Member.exposed (fun _ => true)
    [.getter "level" (.typed .bool) (pure true : Action Unit Bool),
      .getter "level" (.pair (.typed .bool) (.typed .bool)) (pure (true, true))]) =
    some (.getter "level" (.typed .bool) (pure true)) := rfl

end Registry

end BindingRegistry
