import BindingRegistry.Proofs.Registry.Refinement
import BindingRegistry.Proofs.Registry.Registrations

/-!
A ledger of what is put into a registry and taken out of it. Replaying it gives
the callable under every name, and every entry that takes something out finds
it there. Hence the books balance: what was put in is there still, was replaced
or was taken out.
-/
namespace BindingRegistry

variable {σ : Type}

inductive Edit (σ : Type) where
  | put (n : QualifiedName) (c : Callable σ)
  | drop (n : QualifiedName)

abbrev Callables (σ : Type) := QualifiedName → Option (Callable σ)

namespace Callables

def names (m : Callables σ) : Set QualifiedName := {n | (m n).isSome = true}

def edit (m : Callables σ) : Edit σ → Callables σ
  | .put n c => Function.update m n (some c)
  | .drop n => Function.update m n none

def replay (m : Callables σ) (es : List (Edit σ)) : Callables σ := es.foldl edit m

/-- Whatever is taken out is there. -/
def Fits (m : Callables σ) : List (Edit σ) → Prop
  | [] => True
  | .put n c :: es => Fits (m.edit (.put n c)) es
  | .drop n :: es => (m n).isSome = true ∧ Fits (m.edit (.drop n)) es

/-- How many edits put something in the place of something else. -/
def overwrites (m : Callables σ) : List (Edit σ) → Nat
  | [] => 0
  | .put n c :: es => (if (m n).isSome then 1 else 0) + overwrites (m.edit (.put n c)) es
  | .drop n :: es => overwrites (m.edit (.drop n)) es

end Callables

def Edit.isPut : Edit σ → Bool
  | put .. => true
  | drop _ => false

def puts (es : List (Edit σ)) : Nat := es.countP Edit.isPut

def drops (es : List (Edit σ)) : Nat := es.countP (!·.isPut)

theorem puts_add_drops (es : List (Edit σ)) : puts es + drops es = es.length := by
  rw [puts, drops, List.length_eq_countP_add_countP Edit.isPut]
  simp

namespace Callables

variable {m : Callables σ} {n : QualifiedName}

theorem replay_append (m : Callables σ) (es es' : List (Edit σ)) :
    m.replay (es ++ es') = (m.replay es).replay es' := List.foldl_append

theorem Fits.append {es es' : List (Edit σ)} (h : m.Fits es) (h' : (m.replay es).Fits es') :
    m.Fits (es ++ es') := by
  induction es generalizing m with
  | nil => exact h'
  | cons e es ih =>
    cases e with
    | put n c => exact @ih (m.edit (.put n c)) h h'
    | drop n => exact ⟨h.1, @ih (m.edit (.drop n)) h.2 h'⟩

theorem names_put (m : Callables σ) (n : QualifiedName) (c : Callable σ) :
    (m.edit (.put n c)).names = insert n m.names := by
  ext k
  by_cases h : k = n
  · simp [names, edit, h]
  · simp [names, edit, h]

theorem names_drop (m : Callables σ) (n : QualifiedName) :
    (m.edit (.drop n)).names = m.names \ {n} := by
  ext k
  by_cases h : k = n
  · simp [names, edit, h]
  · simp [names, edit, h]

/-- What was there and what was put in is there, was replaced or was taken out. -/
theorem ncard_names_replay {es : List (Edit σ)} (hfinite : m.names.Finite) (h : m.Fits es) :
    (m.replay es).names.ncard + m.overwrites es + drops es = m.names.ncard + puts es := by
  induction es generalizing m with
  | nil => rfl
  | cons e es ih =>
    cases e with
    | put n c =>
      have hrest := @ih (m.edit (.put n c)) (names_put m n c ▸ hfinite.insert n) h
      have hputs : puts (.put n c :: es) = puts es + 1 := List.countP_cons_of_pos rfl
      have hdrops : drops (.put n c :: es) = drops es := List.countP_cons_of_neg Bool.false_ne_true
      change ((m.edit (.put n c)).replay es).names.ncard + _ + _ = _
      rw [overwrites, hputs, hdrops]
      rw [names_put] at hrest
      by_cases hn : n ∈ m.names
      · rw [Set.insert_eq_of_mem hn] at hrest
        rw [show (m n).isSome = true from hn, if_pos rfl]
        omega
      · rw [Set.ncard_insert_of_notMem hn hfinite] at hrest
        rw [if_neg (show ¬ (m n).isSome = true from hn)]
        omega
    | drop n =>
      have hrest := @ih (m.edit (.drop n)) (names_drop m n ▸ hfinite.sdiff) h.2
      have hputs : puts (.drop n :: es) = puts es := List.countP_cons_of_neg Bool.false_ne_true
      have hdrops : drops (.drop n :: es) = drops es + 1 := List.countP_cons_of_pos rfl
      have hgone : (m.names \ {n}).ncard + 1 = m.names.ncard :=
        Set.ncard_sdiff_singleton_add_one h.1 hfinite
      change ((m.edit (.drop n)).replay es).names.ncard + _ + _ = _
      rw [overwrites, hputs, hdrops]
      rw [names_drop] at hrest
      omega

/-- The edits that take out every name of a group that is still there. -/
def dropsOf (m : Callables σ) : List QualifiedName → List (Edit σ)
  | [] => []
  | n :: ns =>
    if (m n).isSome then .drop n :: dropsOf (m.edit (.drop n)) ns else dropsOf m ns

theorem dropsOf_cons (m : Callables σ) (n : QualifiedName) (ns : List QualifiedName) :
    m.dropsOf (n :: ns) = m.dropsOf [n] ++ (m.replay (m.dropsOf [n])).dropsOf ns := by
  rw [dropsOf, dropsOf]
  split
  · rfl
  · rfl

theorem fits_dropsOf (m : Callables σ) (ns : List QualifiedName) : m.Fits (m.dropsOf ns) := by
  induction ns generalizing m with
  | nil => trivial
  | cons n ns ih =>
    rw [dropsOf]
    split
    · next h => exact ⟨h, ih _⟩
    · exact ih m

theorem replay_dropsOf (m : Callables σ) (ns : List QualifiedName) (k : QualifiedName) :
    m.replay (m.dropsOf ns) k = if k ∈ ns then none else m k := by
  induction ns generalizing m with
  | nil => rfl
  | cons n ns ih =>
    rw [dropsOf]
    split
    · refine (ih (m.edit (.drop n))).trans ?_
      by_cases hk : k = n
      · simp [edit, hk]
      · simp [edit, hk]
    · next h =>
      rw [ih]
      by_cases hk : k = n
      · have hn : m n = none := by simpa using h
        simp [hk, hn]
      · simp [hk]

theorem length_dropsOf {ns : List QualifiedName} (hns : ns.Nodup)
    (h : ∀ n ∈ ns, (m n).isSome = true) : (m.dropsOf ns).length = ns.length := by
  induction ns generalizing m with
  | nil => rfl
  | cons n ns ih =>
    obtain ⟨hn, hrest⟩ := List.nodup_cons.1 hns
    rw [dropsOf, if_pos (h n List.mem_cons_self), List.length_cons, List.length_cons]
    refine congrArg (· + 1) (ih hrest fun k hk => ?_)
    have hne : k ≠ n := fun he => hn (he ▸ hk)
    rw [edit, Function.update_of_ne hne]
    exact h k (List.mem_cons_of_mem _ hk)

end Callables

namespace Registry

def callables (r : Registry σ) : Callables σ := fun n => (r.lookup n).map (·.callable)

theorem isSome_callables (r : Registry σ) (n : QualifiedName) :
    (r.callables n).isSome = (r.lookup n).isSome := Option.isSome_map

/-- One registry comes from another by the edits of a ledger, each counted in the revision. -/
structure Booked (r : Registry σ) (es : List (Edit σ)) (r' : Registry σ) : Prop where
  revision : r'.revision = r.revision + es.length
  callables : r'.callables = r.callables.replay es
  fits : r.callables.Fits es

theorem Booked.refl (r : Registry σ) : r.Booked [] r := ⟨rfl, rfl, trivial⟩

theorem Booked.trans {r r' r'' : Registry σ} {es es' : List (Edit σ)} (h : r.Booked es r')
    (h' : r'.Booked es' r'') : r.Booked (es ++ es') r'' where
  revision := by rw [h'.revision, h.revision, List.length_append, Nat.add_assoc]
  callables := by rw [h'.callables, h.callables, Callables.replay_append]
  fits := h.fits.append (h.callables ▸ h'.fits)

theorem booked_register (r : Registry σ) (n : QualifiedName) (c : Callable σ) :
    r.Booked [.put n c] (r.register n c).value where
  revision := by rw [register_value]; rfl
  callables := by
    funext m
    change ((r.register n c).value.lookup m).map _ = Function.update r.callables n (some c) m
    rw [lookup_register, Function.update_apply]
    split
    · exact congrArg some (injectAll_rest _ _).1
    · rfl
  fits := trivial

theorem booked_registerEach (r : Registry σ) (ps : List (QualifiedName × Callable σ)) :
    r.Booked (ps.map fun p => .put p.1 p.2) (r.registerEach ps) := by
  induction ps generalizing r with
  | nil => exact .refl r
  | cons p ps ih => exact (booked_register r p.1 p.2).trans (ih (r.register p.1 p.2).value)

theorem booked_remove (r : Registry σ) (n : QualifiedName) :
    r.Booked (r.callables.dropsOf [n]) (r.remove n).value.1 where
  revision := by
    rw [Callables.dropsOf, isSome_callables, remove]
    cases r.lookup n with
    | none => rfl
    | some b => rfl
  callables := by
    funext m
    rw [Callables.replay_dropsOf, callables, lookup_remove]
    by_cases h : m = n
    · simp [h]
    · simp [h, callables]
  fits := Callables.fits_dropsOf _ _

/-- The methods of an interface go one by one. -/
theorem booked_removeInterface (r : Registry σ) (i : String) :
    r.Booked (r.callables.dropsOf (r.selectInterface i)) (r.removeInterface i).value.1 where
  revision := by
    have hpresent : ∀ n ∈ r.selectInterface i, (r.callables n).isSome = true := by
      intro n hn
      rw [isSome_callables]
      exact (mem_selectInterface.1 hn).1
    rw [Callables.length_dropsOf (nodup_selectInterface r i) hpresent, ← removeInterface_count,
      removeInterface]
    split
    · rfl
    · rfl
  callables := by
    funext m
    rw [Callables.replay_dropsOf, callables, lookup_removeInterface]
    by_cases h : m.interface = i
    · rw [if_pos h]
      split
      · rfl
      · next hm =>
        have hnone : r.lookup m = none := by
          rw [mem_selectInterface, not_and] at hm
          by_contra hne
          exact hm (Option.isSome_iff_ne_none.2 hne) h
        rw [callables, hnone]
    · rw [if_neg h, if_neg fun hm => h (mem_selectInterface.1 hm).2]
      rfl
  fits := Callables.fits_dropsOf _ _

theorem booked_removeEach (r : Registry σ) (names : List QualifiedName) :
    r.Booked (r.callables.dropsOf names) (r.removeEach names).value.1 := by
  induction names generalizing r with
  | nil => exact .refl r
  | cons n ns ih =>
    have hstep := (booked_remove r n).trans (ih (r.remove n).value.1)
    rw [(booked_remove r n).callables, ← Callables.dropsOf_cons] at hstep
    exact hstep

/-- Configuring a binding is no entry: its callable stays. -/
theorem booked_update (r : Registry σ) (n : QualifiedName) {f : Binding σ → Binding σ}
    (hf : ∀ b, (f b).callable = b.callable) : r.Booked [] (r.update n f) where
  revision := by
    rw [update]
    split
    · rfl
    · split
      · rfl
      · rfl
  callables := by
    funext m
    change ((r.update n f).lookup m).map _ = (r.lookup m).map _
    rw [lookup_update]
    split
    · next h =>
      rw [h, Option.map_map]
      exact congrArg (Option.map · (r.lookup n)) (funext hf)
    · rfl
  fits := trivial

theorem booked_updateEach (r : Registry σ) (names : List QualifiedName)
    {f : Binding σ → Binding σ} (hf : ∀ b, (f b).callable = b.callable) :
    r.Booked [] (r.updateEach names f) :=
  updateEach_induction (fun r' n h => h.trans (booked_update r' n hf)) names (.refl r)

theorem booked_declareGlobal (r : Registry σ) (i : Injected) : r.Booked [] (r.declareGlobal i) where
  revision := rfl
  callables := by
    funext m
    change ((r.declareGlobal i).lookup m).map _ = (r.lookup m).map _
    rw [lookup_declareGlobal, Option.map_map]
    rfl
  fits := trivial

theorem adjustment_callable (a : Adjustment σ) (b : Binding σ) :
    (a.apply b).callable = b.callable := by
  cases a with
  | inject | addFilter | clearFilters => rfl

def removals (r : Registry σ) : Change σ → List QualifiedName
  | .remove n => [n]
  | .removeInterface i => r.selectInterface i
  | .removeEach names => names
  | _ => []

/-- What a change puts in and takes out: every callable that it registers, and every name with a
binding that it removes. -/
def edits (r : Registry σ) (c : Change σ) : List (Edit σ) :=
  (c.registrations r.defaultName).map (fun p => .put p.1 p.2) ++
    r.callables.dropsOf (r.removals c)

/-- Every change counts what it puts in and takes out, and does nothing else to the callables. -/
theorem booked_apply (r : Registry σ) (c : Change σ) : r.Booked (r.edits c) (r.apply c) := by
  have registering (hc : c.Registering) (hn : r.removals c = []) :
      r.Booked (r.edits c) (r.apply c) := by
    rw [edits, hn, apply_of_registering r hc]
    exact (booked_registerEach r _).trans (.refl _)
  cases c with
  | register | registerRemote | exposeFunction | expose => exact registering trivial rfl
  | adjust n a => exact booked_update r n (adjustment_callable a)
  | adjustEach names a => exact booked_updateEach r names (adjustment_callable a)
  | remove n => exact booked_remove r n
  | removeInterface i => exact booked_removeInterface r i
  | removeEach names => exact booked_removeEach r names
  | declareGlobal i => exact booked_declareGlobal r i
  | registerConverter | unregisterConverter | extendConverters => exact ⟨rfl, rfl, trivial⟩

end Registry

end BindingRegistry
