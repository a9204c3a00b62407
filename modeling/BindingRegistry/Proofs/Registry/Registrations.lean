import BindingRegistry.Proofs.Registry.Flat

/-!
Registrations and what comes after them. Four kinds of changes register
callables: none, one or several, each under a name. Of the names with a binding
every one was registered, so a run of changes can be cut at the change that
registered a name last.
-/
namespace BindingRegistry

variable {σ : Type}

/-- The callables that a change registers, in order; functions without a name go under
`default`. -/
def Change.registrations (default : QualifiedName) : Change σ → List (QualifiedName × Callable σ)
  | .register n c => [(n, c)]
  | .registerRemote n endpoint remote signature transport =>
    match Remote.Url.parse endpoint with
    | .ok url => [(n, .proxy ⟨url, remote.interface, remote.method, signature, transport⟩)]
    | .error _ => []
  | .exposeFunction op => [(default, .function op)]
  | .expose interface wanted members =>
    (Member.exposed wanted members).map fun m => (⟨interface, m.name⟩, m.callable)
  | _ => []

def Change.Registering : Change σ → Prop
  | .register .. | .registerRemote .. | .exposeFunction .. | .expose .. => True
  | _ => False

def Change.Registers (default n : QualifiedName) (c : Change σ) : Prop :=
  ∃ callable, (n, callable) ∈ c.registrations default

/-- What a change does to the binding under a name that it does not register. -/
def Change.effect (n : QualifiedName) : Change σ → Binding σ → Binding σ
  | .adjust m a => if m = n then a.apply else id
  | .adjustEach names a => a.apply^[names.count n]
  | .declareGlobal i => (·.inject i)
  | _ => id

/-- What changes do to a binding, one after the other. -/
def Change.effects (n : QualifiedName) (cs : List (Change σ)) (b : Binding σ) : Binding σ :=
  cs.foldl (fun b c => c.effect n b) b

theorem Change.Registers.registering {default n : QualifiedName} {c : Change σ}
    (h : c.Registers default n) : c.Registering := by
  obtain ⟨callable, hmem⟩ := h
  cases c with
  | register | registerRemote | exposeFunction | expose => trivial
  | _ => cases hmem

/-- The change `c`, with `before` ahead of it and `since` after it, is the last one that registers
`n`. -/
structure LastRegistration (default n : QualifiedName) (changes before : List (Change σ))
    (c : Change σ) (since : List (Change σ)) : Prop where
  split : changes = before ++ c :: since
  registers : c.Registers default n
  none_since : ∀ c' ∈ since, ¬ c'.Registers default n

theorem LastRegistration.snoc {default n : QualifiedName} {changes before since : List (Change σ)}
    {c c' : Change σ} (h : LastRegistration default n changes before c since)
    (hc : ¬ c'.Registers default n) :
    LastRegistration default n (changes ++ [c']) before c (since ++ [c']) where
  split := by rw [h.split, List.append_assoc, List.cons_append]
  registers := h.registers
  none_since d hd := by
    rcases List.mem_append.1 hd with hd | hd
    · exact h.none_since d hd
    · rwa [List.mem_singleton.1 hd]

namespace FlatMap

/-- A binding that is changed for each time its name is in a group. -/
theorem alterEach_apply (m : FlatMap σ) (names : List QualifiedName) (f : Binding σ → Binding σ)
    (n : QualifiedName) :
    names.foldl (fun m k => m.alter k f) m n = (m n).map f^[names.count n] := by
  induction names generalizing m with
  | nil => simp
  | cons k ks ih =>
    rw [List.foldl_cons, ih, alter_apply]
    by_cases h : n = k
    · rw [if_pos h, h, List.count_cons_self, Function.iterate_succ, Option.map_map]
    · rw [if_neg h, List.count_cons_of_ne (Ne.symm h)]

end FlatMap

namespace Flat

def registered (f : Flat σ) (n : QualifiedName) (c : Callable σ) : Binding σ :=
  (Binding.ofCallable n c).injectAll f.globals.entries

def putEach (f : Flat σ) (ps : List (QualifiedName × Callable σ)) : Flat σ :=
  ps.foldl (fun f p => f.put p.1 p.2) f

theorem globals_putEach (f : Flat σ) (ps : List (QualifiedName × Callable σ)) :
    (f.putEach ps).globals = f.globals := by
  induction ps generalizing f with
  | nil => rfl
  | cons p ps ih => exact ih (f.put p.1 p.2)

theorem defaultName_putEach (f : Flat σ) (ps : List (QualifiedName × Callable σ)) :
    (f.putEach ps).defaultName = f.defaultName := by
  induction ps generalizing f with
  | nil => rfl
  | cons p ps ih => exact ih (f.put p.1 p.2)

theorem bindings_put (f : Flat σ) (n k : QualifiedName) (c : Callable σ) :
    (f.put n c).bindings k = if k = n then some (f.registered n c) else f.bindings k :=
  FlatMap.insert_apply _ n k _

/-- A name that is not registered keeps what it has. -/
theorem bindings_putEach_of_not_mem {ps : List (QualifiedName × Callable σ)} {n : QualifiedName}
    (f : Flat σ) (h : ¬ ∃ c, (n, c) ∈ ps) : (f.putEach ps).bindings n = f.bindings n := by
  induction ps generalizing f with
  | nil => rfl
  | cons p ps ih =>
    have hp : n ≠ p.1 := fun he => h ⟨p.2, he ▸ List.mem_cons_self⟩
    have hps : ¬ ∃ c, (n, c) ∈ ps := fun ⟨c, hc⟩ => h ⟨c, List.mem_cons_of_mem _ hc⟩
    exact (ih (f.put p.1 p.2) hps).trans (by rw [bindings_put, if_neg hp])

/-- A name that is registered has one of the callables registered under it. -/
theorem exists_bindings_putEach {ps : List (QualifiedName × Callable σ)} {n : QualifiedName}
    (f : Flat σ) (h : ∃ c, (n, c) ∈ ps) :
    ∃ c, (n, c) ∈ ps ∧ (f.putEach ps).bindings n = some (f.registered n c) := by
  induction ps generalizing f with
  | nil => obtain ⟨c, hc⟩ := h; cases hc
  | cons p ps ih =>
    by_cases hps : ∃ c, (n, c) ∈ ps
    · obtain ⟨c, hc, hb⟩ := ih (f.put p.1 p.2) hps
      exact ⟨c, List.mem_cons_of_mem _ hc, hb⟩
    · obtain ⟨c, hc⟩ := h
      rcases List.mem_cons.1 hc with rfl | hc
      · refine ⟨c, List.mem_cons_self, ?_⟩
        exact (bindings_putEach_of_not_mem (f.put n c) hps).trans (by rw [bindings_put, if_pos rfl])
      · exact absurd ⟨c, hc⟩ hps

/-- A change that registers callables does nothing else. -/
theorem apply_of_registering (f : Flat σ) {c : Change σ} (h : c.Registering) :
    f.apply c = f.putEach (c.registrations f.defaultName) := by
  cases c with
  | register | exposeFunction => rfl
  | registerRemote n endpoint =>
    simp only [apply, Change.registrations]
    cases Remote.Url.parse endpoint with
    | ok url => rfl
    | error fault => rfl
  | expose => rw [apply, Change.registrations, putEach, List.foldl_map]
  | _ => exact h.elim

theorem defaultName_apply (f : Flat σ) (c : Change σ) :
    (f.apply c).defaultName = f.defaultName := by
  have hr (h : c.Registering) : (f.apply c).defaultName = f.defaultName := by
    rw [apply_of_registering f h, defaultName_putEach]
  cases c with
  | register | registerRemote | exposeFunction | expose => exact hr trivial
  | _ => rfl

/-- The name of functions without one is settled by the builder. -/
theorem defaultName_foldl (f : Flat σ) (changes : List (Change σ)) :
    (changes.foldl apply f).defaultName = f.defaultName := by
  induction changes generalizing f with
  | nil => rfl
  | cons c cs ih => rw [List.foldl_cons, ih, defaultName_apply]

/-- A change that does not register a name has its effect on the binding there and no other. -/
theorem exists_bindings_of_apply {f : Flat σ} {c : Change σ} {n : QualifiedName} {b' : Binding σ}
    (hc : ¬ c.Registers f.defaultName n) (h : (f.apply c).bindings n = some b') :
    ∃ b, f.bindings n = some b ∧ b' = c.effect n b := by
  have passed (hr : c.Registering) : f.bindings n = some b' := by
    rw [← h, apply_of_registering f hr, bindings_putEach_of_not_mem f hc]
  cases c with
  | register | registerRemote | exposeFunction | expose => exact ⟨b', passed trivial, rfl⟩
  | adjust m a =>
    simp only [apply, FlatMap.alter_apply] at h
    by_cases hm : n = m
    · subst hm
      rw [if_pos rfl] at h
      obtain ⟨b, hb, rfl⟩ := Option.map_eq_some_iff.1 h
      exact ⟨b, hb, by rw [Change.effect, if_pos rfl]⟩
    · rw [if_neg hm] at h
      exact ⟨b', h, by rw [Change.effect, if_neg (Ne.symm hm)]; rfl⟩
  | adjustEach names a =>
    simp only [apply, FlatMap.alterEach_apply] at h
    obtain ⟨b, hb, rfl⟩ := Option.map_eq_some_iff.1 h
    exact ⟨b, hb, rfl⟩
  | remove m =>
    simp only [apply, FlatMap.erase_apply, Option.ite_none_left_eq_some] at h
    exact ⟨b', h.2, rfl⟩
  | removeInterface i =>
    simp only [apply, FlatMap.eraseInterface, Option.ite_none_left_eq_some] at h
    exact ⟨b', h.2, rfl⟩
  | removeEach names =>
    simp only [apply, FlatMap.eraseEach, Option.ite_none_left_eq_some] at h
    exact ⟨b', h.2, rfl⟩
  | declareGlobal i =>
    obtain ⟨b, hb, rfl⟩ := Option.map_eq_some_iff.1 h
    exact ⟨b, hb, rfl⟩
  | registerConverter | unregisterConverter | extendConverters => exact ⟨b', h, rfl⟩

/-- Changes that do not register a name have their effects on the binding there. -/
theorem exists_bindings_of_foldl {f : Flat σ} {since : List (Change σ)} {n : QualifiedName}
    {b' : Binding σ} (hs : ∀ c ∈ since, ¬ c.Registers f.defaultName n)
    (h : (since.foldl apply f).bindings n = some b') :
    ∃ b, f.bindings n = some b ∧ b' = Change.effects n since b := by
  induction since generalizing f with
  | nil => exact ⟨b', h, rfl⟩
  | cons c cs ih =>
    have hcs : ∀ c' ∈ cs, ¬ c'.Registers (f.apply c).defaultName n := by
      rw [defaultName_apply]
      exact fun c' hc' => hs c' (List.mem_cons_of_mem _ hc')
    obtain ⟨b₁, hb₁, rfl⟩ := ih hcs h
    obtain ⟨b, hb, rfl⟩ := exists_bindings_of_apply (hs c List.mem_cons_self) hb₁
    exact ⟨b, hb, rfl⟩

/-- A registered name has one of the callables that the change registers under it. -/
theorem exists_bindings_of_registers {f : Flat σ} {c : Change σ} {n : QualifiedName}
    (h : c.Registers f.defaultName n) :
    ∃ callable, (f.apply c).bindings n = some (f.registered n callable) := by
  obtain ⟨callable, -, hb⟩ := exists_bindings_putEach f h
  exact ⟨callable, by rw [apply_of_registering f h.registering, hb]⟩

end Flat

namespace Registry

def registerEach (r : Registry σ) (ps : List (QualifiedName × Callable σ)) : Registry σ :=
  ps.foldl (fun r p => (r.register p.1 p.2).value) r

theorem apply_of_registering (r : Registry σ) {c : Change σ} (h : c.Registering) :
    r.apply c = r.registerEach (c.registrations r.defaultName) := by
  cases c with
  | register | exposeFunction => rfl
  | registerRemote n endpoint =>
    simp only [apply, registerRemote, Change.registrations]
    cases Remote.Url.parse endpoint with
    | ok url => rfl
    | error fault => rfl
  | expose => rw [apply, expose_value, Change.registrations, registerEach, List.foldl_map]
  | _ => exact h.elim

end Registry

end BindingRegistry
