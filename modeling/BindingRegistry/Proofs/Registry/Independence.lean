import BindingRegistry.Proofs.Registry.Defaults
import BindingRegistry.Proofs.Registry.Ledger

/-!
Independence of bindings. What is done to one name shows under that name only,
and things done to different names may be done in either order. It does not
matter that two names share an interface, which one change may create and
another may drop, or that they read alike with the dot between their parts.
-/
namespace BindingRegistry

variable {σ : Type}

/-- The name that a change is addressed to, if it is addressed to one. -/
def Change.name? : Change σ → Option QualifiedName
  | .register n _ | .registerRemote n .. | .adjust n _ | .remove n => some n
  | _ => none

/-- What a change puts under the name it is addressed to, in place of what is there. -/
def Change.rebind (globals : Injections) : Change σ → Option (Binding σ) → Option (Binding σ)
  | .register n c, _ => some ((Binding.ofCallable n c).injectAll globals.entries)
  | .registerRemote n endpoint remote signature transport, b =>
    match Remote.Url.parse endpoint with
    | .ok url =>
      let proxy := .proxy ⟨url, remote.interface, remote.method, signature, transport⟩
      some ((Binding.ofCallable n proxy).injectAll globals.entries)
    | .error _ => b
  | .adjust _ a, b => b.map a.apply
  | .remove _, _ => none
  | _, b => b

namespace Flat

variable {c d : Change σ} {n m : QualifiedName}

theorem globals_apply_of_name (f : Flat σ) (hc : c.name? = some n) :
    (f.apply c).globals = f.globals := by
  rw [globals_apply]
  cases c with
  | declareGlobal => cases hc
  | _ => rfl

theorem bindings_apply_of_name (f : Flat σ) (hc : c.name? = some n) :
    (f.apply c).bindings = Function.update f.bindings n (c.rebind f.globals (f.bindings n)) := by
  cases c with
  | register k callable | adjust k a | remove k =>
    cases hc
    rfl
  | registerRemote k endpoint =>
    cases hc
    simp only [apply, Change.rebind]
    cases Remote.Url.parse endpoint with
    | ok url => rfl
    | error fault => exact (Function.update_eq_self n f.bindings).symm
  | _ => cases hc

/-- Changes of different names may be made in either order. -/
theorem apply_comm (f : Flat σ) (hc : c.name? = some n) (hd : d.name? = some m) (h : n ≠ m) :
    (f.apply c).apply d = (f.apply d).apply c := by
  refine Flat.ext ?_ ?_ ?_
  · rw [bindings_apply_of_name _ hd, bindings_apply_of_name _ hc, bindings_apply_of_name _ hc,
      bindings_apply_of_name _ hd, globals_apply_of_name f hc, globals_apply_of_name f hd,
      Function.update_of_ne h, Function.update_of_ne (Ne.symm h), Function.update_comm h]
  · rw [globals_apply_of_name _ hd, globals_apply_of_name _ hc, globals_apply_of_name _ hc,
      globals_apply_of_name _ hd]
  · rw [defaultName_apply, defaultName_apply, defaultName_apply, defaultName_apply]

end Flat

namespace Registry

variable {r r' : Registry σ} {c d : Change σ} {n m : QualifiedName}

theorem lookup_apply_of_name (r : Registry σ) (hc : c.name? = some n) :
    (r.apply c).lookup = Function.update r.lookup n (c.rebind r.globals (r.lookup n)) := by
  have hflat := congrArg Flat.bindings (flat_apply r c)
  rw [Flat.bindings_apply_of_name _ hc] at hflat
  exact hflat

/-- A change of one name leaves everything alone that is not a binding. -/
theorem sameRest_apply_of_name (r : Registry σ) (hc : c.name? = some n) :
    r.SameRest (r.apply c) := by
  cases c with
  | register k callable => exact sameRest_register r k callable
  | registerRemote k endpoint =>
    simp only [apply, registerRemote]
    cases Remote.Url.parse endpoint with
    | ok url => exact sameRest_register r k _
    | error fault => exact .refl r
  | adjust k a => exact sameRest_update r k a.apply
  | remove k => exact sameRest_remove r k
  | _ => cases hc

/-- What a change of a name puts in and takes out depends on that name only. -/
theorem edits_of_name (hc : c.name? = some n) (h : r.lookup n = r'.lookup n) :
    r.edits c = r'.edits c := by
  cases c with
  | remove k =>
    cases hc
    simp only [edits, removals, Callables.dropsOf, callables, h]
    rfl
  | register | registerRemote | adjust => rfl
  | _ => cases hc

/-- Without empty interfaces the two levels hold no more than is found in them. -/
theorem Kept.interfaces_eq (h : r.Kept) (h' : r'.Kept) (hl : r.lookup = r'.lookup) :
    r.interfaces = r'.interfaces := by
  refine Dict.ext_get? fun i => ?_
  have hpresent : (r.interfaces.get? i).isSome = (r'.interfaces.get? i).isSome := by
    rw [Bool.eq_iff_iff, ← Dict.mem_keys, ← Dict.mem_keys]
    exact h.mem_interfaceNames.trans (hl ▸ h'.mem_interfaceNames.symm)
  cases hi : r.interfaces.get? i with
  | none =>
    rw [hi] at hpresent
    exact (Option.isNone_iff_eq_none.1 (by simpa using hpresent.symm)).symm
  | some methods =>
    rw [hi] at hpresent
    obtain ⟨methods', hi'⟩ := Option.isSome_iff_exists.1 hpresent.symm
    have hmethods : methods = methods' := Dict.ext_get? fun k => by
      have hk := congrFun hl ⟨i, k⟩
      simpa only [lookup, hi, hi', Option.bind_some] using hk
    rw [hi', hmethods]

attribute [ext] Registry

/-- Changes of different names leave the same registry in either order. -/
theorem Kept.apply_comm (h : r.Kept) (hc : c.name? = some n) (hd : d.name? = some m)
    (hnm : n ≠ m) : (r.apply c).apply d = (r.apply d).apply c := by
  have hlookup : ((r.apply c).apply d).lookup = ((r.apply d).apply c).lookup := by
    have hflat := Flat.apply_comm r.flat hc hd hnm
    rw [← flat_apply, ← flat_apply, ← flat_apply, ← flat_apply] at hflat
    exact congrArg Flat.bindings hflat
  have hrevision : ((r.apply c).apply d).revision = ((r.apply d).apply c).revision := by
    have hcedits : (r.apply d).edits c = r.edits c := edits_of_name hc (by
      rw [lookup_apply_of_name r hd, Function.update_of_ne hnm])
    have hdedits : (r.apply c).edits d = r.edits d := edits_of_name hd (by
      rw [lookup_apply_of_name r hc, Function.update_of_ne (Ne.symm hnm)])
    rw [(booked_apply _ d).revision, (booked_apply _ c).revision, (booked_apply _ c).revision,
      (booked_apply _ d).revision, hcedits, hdedits, Nat.add_right_comm]
  have hcd := (sameRest_apply_of_name r hc).trans (sameRest_apply_of_name (r.apply c) hd)
  have hdc := (sameRest_apply_of_name r hd).trans (sameRest_apply_of_name (r.apply d) hc)
  have hrest := hdc.symm.trans hcd
  have hinterfaces : ((r.apply c).apply d).interfaces = ((r.apply d).apply c).interfaces :=
    (kept_apply d (kept_apply c h)).interfaces_eq (kept_apply c (kept_apply d h)) hlookup
  exact Registry.ext hinterfaces hrevision hrest.globals hrest.converters hrest.config

/-- Nothing that one can see under the name tells the registries apart. -/
structure Undisturbed (r r' : Registry σ) (n : QualifiedName) : Prop where
  lookup : r'.lookup n = r.lookup n
  signature : r'.signature n = r.signature n
  invoke : ∀ call args, r'.invoke n call args = r.invoke n call args

structure Agree (r r' : Registry σ) (n : QualifiedName) : Prop where
  lookup : r'.lookup n = r.lookup n
  rest : r.SameRest r'

theorem Agree.undisturbed (h : r.Agree r' n) : r.Undisturbed r' n := by
  refine ⟨h.lookup, by rw [signature, signature, h.lookup], fun call args => ?_⟩
  rw [Registry.invoke, Registry.invoke, h.lookup, h.rest.converters]

theorem Agree.apply (h : r.Agree r' n) (hc : c.name? = some n) :
    (r.apply c).Agree (r'.apply c) n where
  lookup := by
    rw [lookup_apply_of_name r hc, lookup_apply_of_name r' hc, Function.update_self,
      Function.update_self, h.lookup, h.rest.globals]
  rest := (sameRest_apply_of_name r hc).symm.trans (h.rest.trans (sameRest_apply_of_name r' hc))

theorem Agree.apply_other (h : r.Agree r' n) (hc : c.name? = some m) (hnm : n ≠ m) :
    r.Agree (r'.apply c) n where
  lookup := by rw [lookup_apply_of_name r' hc, Function.update_of_ne hnm, h.lookup]
  rest := h.rest.trans (sameRest_apply_of_name r' hc)

/-- A change of one name does not show under another. -/
theorem undisturbed_apply (r : Registry σ) (hc : c.name? = some m) (hnm : n ≠ m) :
    r.Undisturbed (r.apply c) n :=
  (Agree.apply_other ⟨rfl, .refl r⟩ hc hnm).undisturbed

/-- After a run of changes that are addressed to names, what is under a name is what the changes of
that name alone make of it. -/
theorem undisturbed_foldl (r : Registry σ) (n : QualifiedName) {changes : List (Change σ)}
    (h : ∀ c ∈ changes, c.name?.isSome = true) :
    Undisturbed ((changes.filter fun c => c.name? = some n).foldl apply r) (changes.foldl apply r)
      n := by
  -- One run makes all changes and the other those of n; the invariant is that they agree on n.
  have hrun (r r' : Registry σ) (hr : r.Agree r' n) :
      ((changes.filter fun c => c.name? = some n).foldl apply r).Agree (changes.foldl apply r')
        n := by
    induction changes generalizing r r' with
    | nil => exact hr
    | cons c cs ih =>
      obtain ⟨hc, hcs⟩ := List.forall_mem_cons.1 h
      obtain ⟨m, hm⟩ := Option.isSome_iff_exists.1 hc
      by_cases hn : m = n
      · subst hn
        rw [List.filter_cons_of_pos (by simpa using hm)]
        exact ih hcs _ _ (hr.apply hm)
      · rw [List.filter_cons_of_neg (by simpa [hm] using hn)]
        exact ih hcs _ _ (hr.apply_other hm (Ne.symm hn))
  exact (hrun r r ⟨rfl, .refl r⟩).undisturbed

/-- A registration, a removal or a configuration of one name and one of another name leave the same
registry in either order, and neither shows under the other name: there the same binding is found,
with the same signature, and every call goes the same way. -/
theorem reachable_names_independent (hr : r.Reachable) (hc : c.name? = some n)
    (hd : d.name? = some m) (hnm : n ≠ m) :
    (r.apply c).apply d = (r.apply d).apply c ∧
      r.Undisturbed (r.apply c) m ∧ r.Undisturbed (r.apply d) n :=
  ⟨hr.kept.apply_comm hc hd hnm, undisturbed_apply r hc (Ne.symm hnm), undisturbed_apply r hd hnm⟩

/-- Two bindings, each the only one of its interface. -/
def stallRegistry : Registry Unit :=
  ((Builder.registryOf []).value.apply
    (.register ⟨"a", "b"⟩ (.getter (.typed .bool) (pure true)))).apply
      (.register ⟨"a.b", "c"⟩ (.getter (.typed .bool) (pure true)))

/-- The last method of an interface may be removed before or after another one is registered there,
and a name that reads like the new one is left alone. -/
theorem stall_names_independent :
    (stallRegistry.apply (.remove ⟨"a", "b"⟩)).apply
        (.register ⟨"a", "b.c"⟩ (.getter (.typed .bool) (pure false))) =
      (stallRegistry.apply (.register ⟨"a", "b.c"⟩ (.getter (.typed .bool) (pure false)))).apply
        (.remove ⟨"a", "b"⟩) ∧
    QualifiedName.text ⟨"a", "b.c"⟩ = QualifiedName.text ⟨"a.b", "c"⟩ ∧
    stallRegistry.Undisturbed
      (stallRegistry.apply (.register ⟨"a", "b.c"⟩ (.getter (.typed .bool) (pure false))))
      ⟨"a.b", "c"⟩ := by
  have hr : stallRegistry.Reachable := .changed _ (.changed _ (.built _))
  have hshared := reachable_names_independent hr (c := .remove ⟨"a", "b"⟩)
    (d := .register ⟨"a", "b.c"⟩ (.getter (.typed .bool) (pure false))) rfl rfl (by decide)
  have halike := reachable_names_independent hr
    (c := .register ⟨"a", "b.c"⟩ (.getter (.typed .bool) (pure false)))
    (d := .adjust ⟨"a.b", "c"⟩ .clearFilters) rfl rfl (by decide)
  exact ⟨hshared.1, rfl, halike.2.1⟩

end Registry

end BindingRegistry
