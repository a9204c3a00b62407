import BindingRegistry.Registry.Exposure
import BindingRegistry.Registry.Selection

/-!
What is found in a registry after a change. A change of one name leaves every
other name alone; a change of a group or of all bindings is the change of each
of them.
-/
namespace BindingRegistry.Registry

variable {σ : Type}

theorem lookup_of_insert {r r' : Registry σ} {i : String} {methods : Dict (Binding σ)}
    (h : r'.interfaces = r.interfaces.insert i methods) (n : QualifiedName) :
    r'.lookup n = if n.interface = i then methods.get? n.method else r.lookup n := by
  rw [lookup, h, Dict.get?_insert]
  split
  · rfl
  · rfl

theorem lookup_of_erase {r r' : Registry σ} {i : String}
    (h : r'.interfaces = r.interfaces.erase i) (n : QualifiedName) :
    r'.lookup n = if n.interface = i then none else r.lookup n := by
  rw [lookup, h, Dict.get?_erase]
  split
  · rfl
  · rfl

/-- An interface that is not there has no methods. -/
theorem get?_methods (r : Registry σ) {n : QualifiedName} {i : String} (h : n.interface = i) :
    ((r.interfaces.get? i).getD .empty).get? n.method = r.lookup n := by
  rw [lookup, h]
  cases r.interfaces.get? i with
  | none => rfl
  | some methods => rfl

/-- A change under the method of a name, made under its interface, is a change of that name. -/
theorem ite_interface_method (n m : QualifiedName) (a b : α) :
    (if n.interface = m.interface then if n.method = m.method then a else b else b) =
      if n = m then a else b := by
  by_cases hi : n.interface = m.interface
  · by_cases hm : n.method = m.method
    · rw [if_pos hi, if_pos hm, if_pos (QualifiedName.ext_iff.2 ⟨hi, hm⟩)]
    · rw [if_pos hi, if_neg hm, if_neg fun h => hm (QualifiedName.ext_iff.1 h).2]
  · rw [if_neg hi, if_neg fun h => hi (QualifiedName.ext_iff.1 h).1]

theorem lookup_put (r : Registry σ) (b : Binding σ) (n : QualifiedName) :
    (r.put b).lookup n = if n = b.name then some b else r.lookup n := by
  rw [lookup_of_insert (r := r) rfl, Dict.get?_insert, ← ite_interface_method]
  split
  · next hi => rw [get?_methods r hi]
  · rfl

def registered (r : Registry σ) (n : QualifiedName) (c : Callable σ) : Binding σ :=
  (Binding.ofCallable n c).injectAll r.globals.entries

theorem injectAll_name (b : Binding σ) (is : List Injected) : (b.injectAll is).name = b.name := by
  induction is generalizing b with
  | nil => rfl
  | cons i is ih => exact ih (b.inject i)

theorem injectAll_rest (b : Binding σ) (is : List Injected) :
    (b.injectAll is).callable = b.callable ∧ (b.injectAll is).filters = b.filters := by
  induction is generalizing b with
  | nil => exact ⟨rfl, rfl⟩
  | cons i is ih => exact ih (b.inject i)

theorem register_value (r : Registry σ) (n : QualifiedName) (c : Callable σ) :
    (r.register n c).value = { r.put (r.registered n c) with revision := r.revision + 1 } := by
  simp only [register, Logged.value_bind]
  split
  · rfl
  · rfl

theorem lookup_register (r : Registry σ) (n : QualifiedName) (c : Callable σ)
    (m : QualifiedName) :
    (r.register n c).value.lookup m = if m = n then some (r.registered n c) else r.lookup m := by
  have hn : (r.registered n c).name = n := injectAll_name _ _
  have h := lookup_put r (r.registered n c) m
  rw [hn] at h
  rw [register_value]
  exact h

/-- Whether or not the interface goes with its last method. -/
theorem lookup_dropMethod (r : Registry σ) (n m : QualifiedName) :
    Registry.lookup { r with interfaces := dropMethod r.interfaces n } m =
      if m = n then none else r.lookup m := by
  have hdrop : Registry.lookup { r with interfaces := dropMethod r.interfaces n } m =
      if m.interface = n.interface then
        (((r.interfaces.get? n.interface).getD .empty).erase n.method).get? m.method
      else r.lookup m := by
    by_cases he : (((r.interfaces.get? n.interface).getD .empty).erase n.method).isEmpty = true
    · rw [lookup_of_erase (r := r) (i := n.interface) (by simp only [dropMethod, he, if_true]),
        Dict.get?_of_isEmpty he]
    · exact lookup_of_insert (r := r) (by simp only [dropMethod, he]; rfl) m
  rw [hdrop, Dict.get?_erase, ← ite_interface_method]
  split
  · next hi => rw [get?_methods r hi]
  · rfl

/-- A removal gives the removed binding back. -/
theorem remove_value (r : Registry σ) (n : QualifiedName) :
    (r.remove n).value.2 = r.lookup n := by
  rw [remove]
  split
  · next h => rw [h]; rfl
  · next h => rw [h]; rfl

theorem lookup_remove (r : Registry σ) (n m : QualifiedName) :
    (r.remove n).value.1.lookup m = if m = n then none else r.lookup m := by
  rw [remove]
  split
  · next h =>
    by_cases hm : m = n
    · rw [if_pos hm, hm]
      exact h
    · rw [if_neg hm]
      rfl
  · exact lookup_dropMethod r n m

theorem lookup_removeInterface (r : Registry σ) (i : String) (m : QualifiedName) :
    (r.removeInterface i).value.1.lookup m = if m.interface = i then none else r.lookup m := by
  rw [removeInterface]
  split
  · next h =>
    by_cases hm : m.interface = i
    · rw [if_pos hm]
      change r.lookup m = none
      rw [lookup, hm, h]
      rfl
    · rw [if_neg hm]
      rfl
  · exact lookup_of_erase (r := r) rfl m

/-- A change of a name without a binding does nothing. -/
theorem update_of_none {r : Registry σ} {n : QualifiedName} (h : r.lookup n = none)
    (f : Binding σ → Binding σ) : r.update n f = r := by
  rw [lookup] at h
  rw [update]
  cases hi : r.interfaces.get? n.interface with
  | none => rfl
  | some methods =>
    have hm : methods.get? n.method = none := by simpa [hi] using h
    simp only [hm]

theorem lookup_update (r : Registry σ) (n : QualifiedName) (f : Binding σ → Binding σ)
    (m : QualifiedName) :
    (r.update n f).lookup m = if m = n then (r.lookup n).map f else r.lookup m := by
  cases h : r.lookup n with
  | none =>
    rw [update_of_none h]
    by_cases hm : m = n
    · rw [if_pos hm, hm, h]
      rfl
    · rw [if_neg hm]
  | some b =>
    obtain ⟨methods, hi, hb⟩ := Option.bind_eq_some_iff.1 h
    have hu : (r.update n f).interfaces =
        r.interfaces.insert n.interface (methods.insert n.method (f b)) := by
      simp only [update, hi, hb]
    rw [lookup_of_insert hu, Dict.get?_insert, ← ite_interface_method]
    split
    · next hint =>
      rw [← get?_methods r hint, hi]
      rfl
    · rfl

theorem lookup_declareGlobal (r : Registry σ) (i : Injected) (m : QualifiedName) :
    (r.declareGlobal i).lookup m = (r.lookup m).map (·.inject i) := by
  simp only [lookup, declareGlobal, Dict.get?_map]
  cases r.interfaces.get? m.interface with
  | none => rfl
  | some methods => exact Dict.get?_map _ methods m.method

structure SameRest (r r' : Registry σ) : Prop where
  globals : r'.globals = r.globals
  converters : r'.converters = r.converters
  config : r'.config = r.config

theorem SameRest.refl (r : Registry σ) : r.SameRest r := ⟨rfl, rfl, rfl⟩

theorem SameRest.symm {r r' : Registry σ} (h : r.SameRest r') : r'.SameRest r :=
  ⟨h.globals.symm, h.converters.symm, h.config.symm⟩

theorem SameRest.trans {r r' r'' : Registry σ} (h : r.SameRest r') (h' : r'.SameRest r'') :
    r.SameRest r'' :=
  ⟨h'.globals.trans h.globals, h'.converters.trans h.converters, h'.config.trans h.config⟩

theorem SameRest.defaultName {r r' : Registry σ} (h : r.SameRest r') :
    r'.defaultName = r.defaultName := by
  rw [Registry.defaultName, h.config, Registry.defaultName]

theorem sameRest_register (r : Registry σ) (n : QualifiedName) (c : Callable σ) :
    r.SameRest (r.register n c).value := by
  rw [register_value]
  exact ⟨rfl, rfl, rfl⟩

theorem sameRest_update (r : Registry σ) (n : QualifiedName) (f : Binding σ → Binding σ) :
    r.SameRest (r.update n f) := by
  rw [update]
  split
  · exact .refl r
  · split
    · exact .refl r
    · exact ⟨rfl, rfl, rfl⟩

theorem sameRest_remove (r : Registry σ) (n : QualifiedName) :
    r.SameRest (r.remove n).value.1 := by
  rw [remove]
  split
  · exact .refl r
  · exact ⟨rfl, rfl, rfl⟩

theorem sameRest_removeInterface (r : Registry σ) (i : String) :
    r.SameRest (r.removeInterface i).value.1 := by
  rw [removeInterface]
  split
  · exact .refl r
  · exact ⟨rfl, rfl, rfl⟩

/-- A call under a name is a call of what is found there. -/
theorem invoke_of_lookup {r : Registry σ} {n : QualifiedName} {b : Binding σ}
    (hb : r.lookup n = some b) (call : Injections) (args : List Value) :
    r.invoke n call args = BindingRegistry.invoke b r.converters call args := by
  rw [invoke, hb]

end BindingRegistry.Registry
