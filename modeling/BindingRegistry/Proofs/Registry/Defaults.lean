import BindingRegistry.Proofs.Registry.Marks
import BindingRegistry.Proofs.Registry.Registrations

/-!
Where the defaults of a binding come from. A registration starts a binding with
the injections for all bindings and forgets what its name had before; from then
on every injection that reaches the name counts, and of one type the last one.
Injections for all bindings reach those that are there and those to come, so it
does not matter whether one is declared before or after a registration.
-/
namespace BindingRegistry

variable {σ : Type}

def Adjustment.injection? : Adjustment σ → Option Injected
  | inject i => some i
  | _ => none

/-- What a change injects into the binding under a name. -/
def Change.injection? (n : QualifiedName) : Change σ → Option Injected
  | .adjust m a => if m = n then a.injection? else none
  | .adjustEach names a => if n ∈ names then a.injection? else none
  | .declareGlobal i => some i
  | _ => none

def Change.global? : Change σ → Option Injected
  | .declareGlobal i => some i
  | _ => none

def Builder.Setting.global? : Builder.Setting → Option Injected
  | .global i => some i
  | _ => none

/-- Injections put in one by one, where there are any. -/
theorem foldl_insertMany_toList (f : α → Option Injected) (is : Injections) (xs : List α) :
    xs.foldl (fun is x => is.insertMany (f x).toList) is = is.insertMany (xs.filterMap f) := by
  induction xs generalizing is with
  | nil => rfl
  | cons x xs ih =>
    rw [List.foldl_cons, ih, ← TypeMap.insertMany_append, List.filterMap_cons]
    cases f x with
    | none => rfl
    | some i => rfl

theorem Change.injection?_of_global {c : Change σ} {i : Injected} (h : c.global? = some i)
    (n : QualifiedName) : c.injection? n = some i := by
  cases c with
  | declareGlobal => exact h
  | _ => cases h

theorem injectAll_singletons (b : Binding σ) (is : List Injected) :
    (b.injectAll is).singletons = b.singletons.insertMany is := by
  induction is generalizing b with
  | nil => rfl
  | cons i is ih => exact ih (b.inject i)

theorem adjustment_singletons (a : Adjustment σ) (b : Binding σ) :
    (a.apply b).singletons = b.singletons.insertMany a.injection?.toList := by
  cases a with
  | inject | addFilter | clearFilters => rfl

/-- A binding that is adjusted more than once has the defaults of one adjusted once. -/
theorem iterate_adjustment_singletons (a : Adjustment σ) (b : Binding σ) (k : Nat) :
    (a.apply^[k + 1] b).singletons = (a.apply b).singletons := by
  induction k with
  | zero => rfl
  | succ k ih =>
    rw [Function.iterate_succ_apply', adjustment_singletons, ih, adjustment_singletons]
    cases a with
    | inject i => exact TypeMap.insertEntry_insertEntry b.singletons i
    | addFilter | clearFilters => rfl

/-- A change that does not register a name may only inject into its binding. -/
theorem effect_singletons (c : Change σ) (n : QualifiedName) (b : Binding σ) :
    (c.effect n b).singletons = b.singletons.insertMany (c.injection? n).toList := by
  cases c with
  | adjust m a =>
    rw [Change.effect, Change.injection?]
    split
    · exact adjustment_singletons a b
    · rfl
  | adjustEach names a =>
    rw [Change.effect, Change.injection?]
    by_cases hn : n ∈ names
    · obtain ⟨k, hk⟩ := Nat.exists_eq_add_of_lt (List.count_pos_iff.2 hn)
      rw [if_pos hn, hk, Nat.zero_add, iterate_adjustment_singletons, adjustment_singletons]
    · rw [if_neg hn, List.count_eq_zero.2 hn]
      rfl
  | _ => rfl

theorem effects_singletons (n : QualifiedName) (cs : List (Change σ)) (b : Binding σ) :
    (Change.effects n cs b).singletons =
      b.singletons.insertMany (cs.filterMap (·.injection? n)) := by
  rw [← foldl_insertMany_toList]
  induction cs generalizing b with
  | nil => rfl
  | cons c cs ih =>
    refine (ih (c.effect n b)).trans ?_
    rw [effect_singletons, List.foldl_cons]

/-- The marks of a binding say no more than its parameters and its defaults do. -/
theorem Binding.Marked.eq {b b' : Binding σ} (h : b.Marked) (h' : b'.Marked)
    (name : b.name = b'.name) (callable : b.callable = b'.callable)
    (singletons : b.singletons = b'.singletons) (filters : b.filters = b'.filters) : b = b' := by
  have hinjects : b.injects = b'.injects := by
    funext t
    rw [injects, injects, singletons]
  have hmarks : b.marks = b'.marks := by
    rw [h.marks, h'.marks, params, params, callable, hinjects]
  cases b
  cases b'
  simp_all only

namespace Flat

variable {f : Flat σ} {c : Change σ} {n : QualifiedName}

theorem registered_singletons (f : Flat σ) (n : QualifiedName) (c : Callable σ) :
    (f.registered n c).singletons = f.globals := by
  rw [registered, injectAll_singletons]
  exact TypeMap.ofList_entries f.globals

theorem marked_registered (f : Flat σ) (n : QualifiedName) (c : Callable σ) :
    (f.registered n c).Marked :=
  Registry.injectAll_induction (fun _ => marked_inject) f.globals.entries (marked_ofCallable n c)

theorem globals_apply (f : Flat σ) (c : Change σ) :
    (f.apply c).globals = f.globals.insertMany c.global?.toList := by
  have hr (h : c.Registering) : (f.apply c).globals = f.globals := by
    rw [apply_of_registering f h, globals_putEach]
  cases c with
  | register | registerRemote | exposeFunction | expose => exact hr trivial
  | _ => rfl

theorem globals_foldl (f : Flat σ) (changes : List (Change σ)) :
    (changes.foldl apply f).globals = f.globals.insertMany (changes.filterMap Change.global?) := by
  rw [← foldl_insertMany_toList]
  induction changes generalizing f with
  | nil => rfl
  | cons c cs ih => rw [List.foldl_cons, ih, globals_apply, List.foldl_cons]

/-- A change leaves every binding with all injections that are meant for all bindings. -/
theorem covers_apply (h : ∀ n b, f.bindings n = some b → Covers f.globals b.singletons) :
    ∀ n b, (f.apply c).bindings n = some b → Covers (f.apply c).globals b.singletons := by
  intro n b' hb'
  by_cases hc : c.Registers f.defaultName n
  · obtain ⟨callable, hb⟩ := exists_bindings_of_registers hc
    obtain rfl : b' = f.registered n callable := Option.some.inj (hb'.symm.trans hb)
    rw [registered_singletons, apply_of_registering f hc.registering, globals_putEach]
    exact fun _ ht => ht
  · obtain ⟨b, hb, rfl⟩ := exists_bindings_of_apply hc hb'
    intro t ht
    rw [globals_apply, TypeMap.contains_insertMany] at ht
    rw [effect_singletons, TypeMap.contains_insertMany]
    refine ht.imp (fun hnew => ?_) (h n b hb t)
    cases hi : c.global? with
    | none => simp [hi] at hnew
    | some i => rwa [Change.injection?_of_global hi, ← hi]

theorem covers_after (settings : List Builder.Setting) (changes : List (Change σ)) :
    ∀ n b, (after settings changes).bindings n = some b →
      Covers (after settings changes).globals b.singletons := by
  have hrun (f : Flat σ) (h : ∀ n b, f.bindings n = some b → Covers f.globals b.singletons) :
      ∀ n b, (changes.foldl apply f).bindings n = some b →
        Covers (changes.foldl apply f).globals b.singletons := by
    induction changes generalizing f with
    | nil => exact h
    | cons c cs ih => exact ih (f.apply c) (covers_apply h)
  exact hrun _ fun n b hb => by cases hb

/-- It is the same binding whether an injection for all is declared before or after it is
registered. -/
theorem registered_declareGlobal (f : Flat σ) (n : QualifiedName) (c : Callable σ) (i : Injected) :
    (f.apply (.declareGlobal i)).registered n c = (f.registered n c).inject i := by
  refine (marked_registered _ n c).eq (marked_inject i (marked_registered f n c)) ?_ ?_ ?_ ?_
  · exact (Registry.injectAll_name _ _).trans (Registry.injectAll_name _ _).symm
  · exact (Registry.injectAll_rest _ _).1.trans (Registry.injectAll_rest _ _).1.symm
  · rw [registered_singletons, Binding.inject, registered_singletons]
    rfl
  · exact (Registry.injectAll_rest _ _).2.trans (Registry.injectAll_rest _ _).2.symm

theorem put_declareGlobal (f : Flat σ) (n : QualifiedName) (c : Callable σ) (i : Injected) :
    (f.apply (.declareGlobal i)).put n c = (f.put n c).apply (.declareGlobal i) := by
  refine Flat.ext ?_ rfl rfl
  funext k
  rw [bindings_put, registered_declareGlobal]
  change _ = ((f.put n c).bindings k).map (·.inject i)
  rw [bindings_put]
  split
  · rfl
  · rfl

theorem putEach_declareGlobal (f : Flat σ) (ps : List (QualifiedName × Callable σ))
    (i : Injected) :
    (f.apply (.declareGlobal i)).putEach ps = (f.putEach ps).apply (.declareGlobal i) := by
  induction ps generalizing f with
  | nil => rfl
  | cons p ps ih =>
    have hstep := ih (f.put p.1 p.2)
    rw [← put_declareGlobal] at hstep
    exact hstep

theorem apply_declareGlobal (h : c.Registering) (i : Injected) :
    (f.apply (.declareGlobal i)).apply c = (f.apply c).apply (.declareGlobal i) := by
  rw [apply_of_registering _ h, apply_of_registering f h, putEach_declareGlobal,
    defaultName_apply]

end Flat

theorem value_foldlM (f : α → β → Logged α) (a : α) (bs : List β) :
    (bs.foldlM f a).value = bs.foldl (fun a b => (f a b).value) a := by
  induction bs generalizing a with
  | nil => rfl
  | cons b bs ih => rw [List.foldlM_cons, Logged.value_bind, ih, List.foldl_cons]

theorem Builder.globals_apply (b : Builder) (s : Builder.Setting) :
    (b.apply s).value.globals = b.globals.insertMany s.global?.toList := by
  cases s with
  | global | config | defaultInterface | defaultMethod | defaultConverters | converter => rfl

theorem Builder.globals_build (b : Builder) :
    (b.build : Logged (Registry σ)).value.globals = b.globals := by
  rw [build_value]

/-- A builder gives its registry the last value of each type. -/
theorem Builder.globals_registryOf (settings : List Builder.Setting) :
    (Builder.registryOf settings : Logged (Registry σ)).value.globals =
      .ofList (settings.filterMap Builder.Setting.global?) := by
  have hrun (b : Builder) :
      (settings.foldl (fun b s => (Builder.apply b s).value) b).globals =
        b.globals.insertMany (settings.filterMap Builder.Setting.global?) := by
    rw [← foldl_insertMany_toList]
    induction settings generalizing b with
    | nil => rfl
    | cons s ss ih => rw [List.foldl_cons, ih, globals_apply, List.foldl_cons]
  rw [registryOf_value, globals_build, ofSettings, value_foldlM, hrun]
  rfl

namespace Flat

theorem defaultName_after (settings : List Builder.Setting) (changes : List (Change σ)) :
    (after settings changes).defaultName = (start settings : Flat σ).defaultName :=
  defaultName_foldl _ changes

theorem globals_after (settings : List Builder.Setting) (changes : List (Change σ)) :
    (after settings changes).globals = .ofList
      (settings.filterMap Builder.Setting.global? ++ changes.filterMap Change.global?) := by
  rw [after, globals_foldl, TypeMap.ofList, TypeMap.insertMany_append]
  congr 1
  exact Builder.globals_registryOf settings

section

variable {settings : List Builder.Setting} {changes before since : List (Change σ)} {c : Change σ}
  {n : QualifiedName} {b : Binding σ}

/-- Whatever has a binding was registered. -/
theorem exists_lastRegistration (h : (after settings changes).bindings n = some b) :
    ∃ before c since,
      LastRegistration (start settings : Flat σ).defaultName n changes before c since := by
  induction changes using List.reverseRecOn generalizing b with
  | nil => cases h
  | append_singleton cs c ih =>
    have hsnoc : after settings (cs ++ [c]) = (after settings cs).apply c := List.foldl_append
    rw [hsnoc] at h
    by_cases hc : c.Registers (start settings : Flat σ).defaultName n
    · exact ⟨cs, c, [], rfl, hc, fun _ hmem => by cases hmem⟩
    · obtain ⟨b', hb', -⟩ := exists_bindings_of_apply (by rwa [defaultName_after]) h
      obtain ⟨before, d, since, hd⟩ := ih hb'
      exact ⟨before, d, since ++ [c], hd.snoc hc⟩

/-- Changes that do not register a name have had their effects on what the ones before them left
there. -/
theorem exists_bindings_since (h : (after settings changes).bindings n = some b)
    (hsplit : changes = before ++ c :: since)
    (hsince : ∀ c' ∈ since, ¬ c'.Registers (start settings : Flat σ).defaultName n) :
    ∃ b₀, ((after settings before).apply c).bindings n = some b₀ ∧
      b = Change.effects n since b₀ := by
  have hafter : after settings changes = since.foldl apply ((after settings before).apply c) := by
    rw [after, hsplit, List.foldl_append, List.foldl_cons]
    rfl
  rw [hafter] at h
  refine exists_bindings_of_foldl ?_ h
  rwa [defaultName_apply, defaultName_after]

/-- The defaults of a binding are the injections for all at its registration, and after them
whatever was injected since. -/
theorem singletons_of_lastRegistration (h : (after settings changes).bindings n = some b)
    (hlast : LastRegistration (start settings : Flat σ).defaultName n changes before c since) :
    b.singletons = ((after settings before).globals).insertMany
      (since.filterMap (·.injection? n)) := by
  have hregisters : c.Registers (after settings before).defaultName n := by
    rw [defaultName_after]
    exact hlast.registers
  obtain ⟨b₀, hb₀, rfl⟩ := exists_bindings_since h hlast.split hlast.none_since
  obtain ⟨callable, hb⟩ := exists_bindings_of_registers hregisters
  obtain rfl : b₀ = _ := Option.some.inj (hb₀.symm.trans hb)
  rw [effects_singletons, registered_singletons]

end

end Flat

namespace Registry

/-- After any sequence of changes a binding has, of each type, the value injected last since its
name was registered last, be it into the name, into a group with the name or into all bindings;
without one it has the value that was last meant for all bindings before, if there is one. So it
has every injection for all bindings; a registration leaves of its name's earlier injections
nothing; and an injection for all may as well be declared after a registration as before. -/
theorem after_defaults_last_written (settings : List Builder.Setting)
    (changes : List (Change σ)) :
    let r := after settings changes
    (∀ n b, r.lookup n = some b →
      (∃ before c since, LastRegistration r.defaultName n changes before c since) ∧
      (∀ before c since, LastRegistration r.defaultName n changes before c since →
        ∀ t, b.singletons.get? t =
          (TypeMap.findLast? t (since.filterMap (·.injection? n))).or
            (TypeMap.findLast? t (settings.filterMap Builder.Setting.global? ++
              before.filterMap Change.global?))) ∧
      Covers r.globals b.singletons) ∧
    (∀ c n, Change.Registers r.defaultName n c →
      (∃ b, (r.apply c).lookup n = some b ∧ b.singletons = r.globals) ∧
      ∀ i m, ((r.declareGlobal i).apply c).lookup m = ((r.apply c).declareGlobal i).lookup m) := by
  intro r
  have hflat : r.flat = Flat.after settings changes := flat_after settings changes
  have hname : r.defaultName = (Flat.start settings : Flat σ).defaultName :=
    (congrArg Flat.defaultName hflat).trans (Flat.defaultName_after settings changes)
  refine ⟨fun n b hb => ?_, fun c n hc => ⟨?_, fun i m => ?_⟩⟩
  · have hb' : (Flat.after settings changes).bindings n = some b := by rw [← hflat]; exact hb
    rw [hname]
    refine ⟨Flat.exists_lastRegistration hb', fun before c since hlast t => ?_, ?_⟩
    · rw [Flat.singletons_of_lastRegistration hb' hlast, TypeMap.get?_insertMany_last,
        Flat.globals_after, TypeMap.ofList, TypeMap.get?_insertMany_last, TypeMap.get?_empty,
        Option.or_none]
    · have hcovers := Flat.covers_after settings changes n b hb'
      rwa [← hflat] at hcovers
  · obtain ⟨callable, hb⟩ := Flat.exists_bindings_of_registers (f := r.flat) hc
    rw [← flat_apply] at hb
    exact ⟨_, hb, Flat.registered_singletons r.flat n callable⟩
  · have h := Flat.apply_declareGlobal (f := r.flat) hc.registering i
    rw [← flat_declareGlobal, ← flat_apply, ← flat_apply, ← flat_declareGlobal] at h
    exact congrFun (congrArg Flat.bindings h) m

/-- A lamp that is registered, configured and registered again. -/
def lampChanges : List (Change Unit) :=
  [.register ⟨"Lamp", "lit"⟩ (.getter (.typed .bool) (pure false)),
    .adjust ⟨"Lamp", "lit"⟩ (.inject ⟨.string, "cold"⟩), .declareGlobal ⟨.token, "house"⟩,
    .register ⟨"Lamp", "lit"⟩ (.getter (.typed .bool) (pure true)),
    .adjustEach [⟨"Lamp", "lit"⟩, ⟨"Lamp", "hue"⟩] (.inject ⟨.i64, .wrap .i64 3⟩)]

/-- The lamp has the number of its group and the token of the house; of its first registration
nothing is left. -/
theorem lamp_defaults : ∃ b,
    (after [.global ⟨.token, "street"⟩] lampChanges).lookup ⟨"Lamp", "lit"⟩ = some b ∧
    b.singletons.get? .i64 = some (.wrap .i64 3) ∧ b.singletons.get? .token = some "house" ∧
    b.singletons.get? .string = none ∧
    ((after [.global ⟨.token, "street"⟩] lampChanges).apply
      (.register ⟨"Lamp", "lit"⟩ (.getter (.typed .bool) (pure true)))).lookup ⟨"Lamp", "lit"⟩ ≠
        some b := by
  obtain ⟨b, hb⟩ : ∃ b, (after [.global ⟨.token, "street"⟩] lampChanges).lookup
    ⟨"Lamp", "lit"⟩ = some b := ⟨_, rfl⟩
  have hname : (after [.global ⟨.token, "street"⟩] lampChanges).defaultName = ⟨"main", "f"⟩ := rfl
  obtain ⟨hholds, hregister⟩ := after_defaults_last_written [.global ⟨.token, "street"⟩] lampChanges
  have hlast : LastRegistration ⟨"main", "f"⟩ ⟨"Lamp", "lit"⟩ lampChanges (lampChanges.take 3)
      (.register ⟨"Lamp", "lit"⟩ (.getter (.typed .bool) (pure true))) (lampChanges.drop 4) := by
    refine ⟨rfl, ⟨_, List.mem_singleton_self _⟩, fun c hc => ?_⟩
    rw [List.mem_singleton.1 hc]
    rintro ⟨callable, hmem⟩
    cases hmem
  have hvalue := (hholds _ b hb).2.1 _ _ _ (hname ▸ hlast)
  refine ⟨b, hb, hvalue .i64, hvalue .token, hvalue .string, fun hagain => ?_⟩
  obtain ⟨⟨b', hb', hsingle⟩, -⟩ := hregister
    (.register ⟨"Lamp", "lit"⟩ (.getter (.typed .bool) (pure true))) ⟨"Lamp", "lit"⟩
    ⟨_, List.mem_singleton_self _⟩
  obtain rfl : b = b' := Option.some.inj (hagain.symm.trans hb')
  have hnone : (after [.global ⟨.token, "street"⟩] lampChanges).globals.get? .i64 = none := rfl
  have hsome : b.singletons.get? .i64 = some (.wrap .i64 3) := hvalue .i64
  rw [hsingle, hnone] at hsome
  cases hsome

end Registry

end BindingRegistry
