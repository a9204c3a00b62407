import BindingRegistry.Proofs.Registry.History
import Mathlib.Data.List.Nodup
import Mathlib.Data.Set.Card

/-!
What a registry enumerates. Bindings stand in ascending order of their
interfaces and methods, so each is listed once; every interface that is listed
has a method, and every binding is found under the name that it carries.
-/
namespace BindingRegistry

variable {σ : Type}

/-- The order of names: by interface, then by method. -/
def QualifiedName.Before (n m : QualifiedName) : Prop :=
  n.interface < m.interface ∨ n.interface = m.interface ∧ n.method < m.method

theorem QualifiedName.Before.ne {n m : QualifiedName} (h : n.Before m) : n ≠ m := by
  rintro rfl
  rcases h with h | ⟨-, h⟩
  · exact String.lt_irrefl _ h
  · exact String.lt_irrefl _ h

namespace Registry

structure Kept (r : Registry σ) : Prop where
  nonempty : ∀ i methods, r.interfaces.get? i = some methods → methods.isEmpty = false
  named : ∀ n b, r.lookup n = some b → b.name = n

theorem kept_built (settings : List Builder.Setting) :
    Kept (Builder.registryOf settings : Logged (Registry σ)).value where
  nonempty i methods h := by
    rw [interfaces_built] at h
    cases h
  named n b h := by
    rw [lookup_built] at h
    cases h

section

variable {r r' : Registry σ}

theorem nonempty_of_insert {i : String} {methods : Dict (Binding σ)} (h : r.Kept)
    (hi : r'.interfaces = r.interfaces.insert i methods) (hm : methods.isEmpty = false) :
    ∀ j ms, r'.interfaces.get? j = some ms → ms.isEmpty = false := by
  intro j ms hj
  rw [hi, Dict.get?_insert] at hj
  split at hj
  · cases hj
    exact hm
  · exact h.nonempty j ms hj

theorem nonempty_of_erase {i : String} (h : r.Kept)
    (hi : r'.interfaces = r.interfaces.erase i) :
    ∀ j ms, r'.interfaces.get? j = some ms → ms.isEmpty = false := by
  intro j ms hj
  rw [hi, Dict.get?_erase] at hj
  split at hj
  · cases hj
  · exact h.nonempty j ms hj

theorem kept_register (n : QualifiedName) (c : Callable σ) (h : r.Kept) :
    (r.register n c).value.Kept where
  nonempty := by
    rw [register_value]
    exact nonempty_of_insert h rfl (Dict.isEmpty_insert _ _ _)
  named m b hb := by
    rw [lookup_register] at hb
    split at hb
    · next hm =>
      cases hb
      exact (injectAll_name _ _).trans hm.symm
    · exact h.named m b hb

theorem kept_remove (n : QualifiedName) (h : r.Kept) : (r.remove n).value.1.Kept where
  nonempty := by
    rw [remove]
    split
    · exact h.nonempty
    · by_cases he : (((r.interfaces.get? n.interface).getD .empty).erase n.method).isEmpty = true
      · exact nonempty_of_erase (i := n.interface) h (by
          change dropMethod r.interfaces n = _
          simp only [dropMethod, he, if_true])
      · exact nonempty_of_insert (i := n.interface) h (by
          change dropMethod r.interfaces n = _
          simp only [dropMethod, he]
          rfl) (Bool.not_eq_true _ ▸ he)
  named m b hb := by
    rw [lookup_remove] at hb
    split at hb
    · cases hb
    · exact h.named m b hb

theorem kept_removeInterface (i : String) (h : r.Kept) : (r.removeInterface i).value.1.Kept where
  nonempty := by
    rw [removeInterface]
    split
    · exact h.nonempty
    · exact nonempty_of_erase h rfl
  named m b hb := by
    rw [lookup_removeInterface] at hb
    split at hb
    · cases hb
    · exact h.named m b hb

theorem kept_update {f : Binding σ → Binding σ} (hf : ∀ b, (f b).name = b.name)
    (n : QualifiedName) (h : r.Kept) : (r.update n f).Kept where
  nonempty := by
    rw [update]
    split
    · exact h.nonempty
    · split
      · exact h.nonempty
      · exact nonempty_of_insert h rfl (Dict.isEmpty_insert _ _ _)
  named m b hb := by
    rw [lookup_update] at hb
    split at hb
    · next hm =>
      obtain ⟨b', hb', rfl⟩ := Option.map_eq_some_iff.1 hb
      rw [hf, hm]
      exact h.named n b' hb'
    · exact h.named m b hb

theorem kept_declareGlobal (i : Injected) (h : r.Kept) : (r.declareGlobal i).Kept where
  nonempty j ms hj := by
    rw [declareGlobal, Dict.get?_map] at hj
    obtain ⟨ms', hms, rfl⟩ := Option.map_eq_some_iff.1 hj
    rw [Dict.isEmpty_map]
    exact h.nonempty j ms' hms
  named m b hb := by
    rw [lookup_declareGlobal] at hb
    obtain ⟨b', hb', rfl⟩ := Option.map_eq_some_iff.1 hb
    exact h.named m b' hb'

theorem adjustment_name (a : Adjustment σ) (b : Binding σ) : (a.apply b).name = b.name := by
  cases a with
  | inject | addFilter | clearFilters => rfl

theorem kept_apply (c : Change σ) (h : r.Kept) : (r.apply c).Kept := by
  refine @apply_induction σ Kept r ?_ ?_ ?_ ?_ ?_ ?_ c h
  · exact fun _ n c => kept_register n c
  · exact fun _ n => kept_remove n
  · exact fun _ i => kept_removeInterface i
  · exact fun _ n a => kept_update (adjustment_name a) n
  · exact fun _ i => kept_declareGlobal i
  · exact fun _ _ h => ⟨h.nonempty, h.named⟩

end

theorem Reachable.kept {r : Registry σ} (hr : r.Reachable) : r.Kept := by
  induction hr with
  | built settings => exact kept_built settings
  | changed c _ ih => exact kept_apply c ih

section

variable {r : Registry σ}

/-- What is found under a name is an entry of the methods that are an entry of the interfaces. -/
theorem lookup_eq_some_iff {n : QualifiedName} {b : Binding σ} : r.lookup n = some b ↔
    ∃ methods, (n.interface, methods) ∈ r.interfaces.entries ∧ (n.method, b) ∈ methods.entries := by
  rw [lookup, Option.bind_eq_some_iff]
  simp only [Dict.get?_eq_some_iff]

theorem exists_lookup_of_mem {b : Binding σ} (h : b ∈ r.bindings) : ∃ n, r.lookup n = some b := by
  obtain ⟨methods, hm, hb⟩ := List.mem_flatMap.1 h
  obtain ⟨⟨i, _⟩, hi, rfl⟩ := List.mem_map.1 hm
  obtain ⟨⟨k, _⟩, hk, rfl⟩ := List.mem_map.1 hb
  exact ⟨⟨i, k⟩, lookup_eq_some_iff.2 ⟨_, hi, hk⟩⟩

theorem mem_bindings {n : QualifiedName} {b : Binding σ} (h : r.lookup n = some b) :
    b ∈ r.bindings := by
  obtain ⟨methods, hi, hk⟩ := lookup_eq_some_iff.1 h
  exact List.mem_flatMap.2 ⟨methods, List.mem_map.2 ⟨_, hi, rfl⟩, List.mem_map.2 ⟨_, hk, rfl⟩⟩

theorem Kept.lookup_eq_some_iff (h : r.Kept) {n : QualifiedName} {b : Binding σ} :
    r.lookup n = some b ↔ b ∈ r.bindings ∧ b.name = n := by
  constructor
  · exact fun hb => ⟨mem_bindings hb, h.named n b hb⟩
  · rintro ⟨hb, rfl⟩
    obtain ⟨n, hn⟩ := exists_lookup_of_mem hb
    rwa [h.named n b hn]

theorem Kept.mem_selectAll (h : r.Kept) {n : QualifiedName} :
    n ∈ r.selectAll ↔ (r.lookup n).isSome = true := by
  rw [selectAll, List.mem_map, Option.isSome_iff_exists]
  simp only [h.lookup_eq_some_iff]

/-- The names of one interface, as its methods are listed. -/
theorem Kept.names_values (h : r.Kept) {i : String} {methods : Dict (Binding σ)}
    (hi : (i, methods) ∈ r.interfaces.entries) :
    methods.values.map (·.name) = methods.keys.map (⟨i, ·⟩) := by
  rw [Dict.values, Dict.keys, List.map_map, List.map_map]
  refine List.map_congr_left fun e he => ?_
  exact h.named ⟨i, e.1⟩ e.2 (Registry.lookup_eq_some_iff.2 ⟨methods, hi, he⟩)

theorem Kept.selectAll_eq (h : r.Kept) : r.selectAll =
    r.interfaces.entries.flatMap (fun e => e.2.keys.map (⟨e.1, ·⟩)) := by
  rw [selectAll, bindings, Dict.values, List.flatMap_map, List.map_flatMap]
  refine List.flatMap_congr fun e he => ?_
  exact h.names_values he

/-- Names are listed in ascending order. -/
theorem Kept.selectAll_ascending (h : r.Kept) :
    r.selectAll.Pairwise QualifiedName.Before := by
  rw [h.selectAll_eq, List.pairwise_flatMap]
  constructor
  · intro e _
    exact List.pairwise_map.2 (e.2.keys_ascending.imp fun hlt => .inr ⟨rfl, hlt⟩)
  · refine r.interfaces.ascending.imp fun {e e'} hlt n hn n' hn' => ?_
    obtain ⟨k, -, rfl⟩ := List.mem_map.1 hn
    obtain ⟨k', -, rfl⟩ := List.mem_map.1 hn'
    exact .inl hlt

theorem Kept.nodup_selectAll (h : r.Kept) : r.selectAll.Nodup :=
  h.selectAll_ascending.imp fun hb => hb.ne

theorem size_eq_length (r : Registry σ) : r.size = r.bindings.length := by
  rw [size, bindings]
  induction r.interfaces.values with
  | nil => rfl
  | cons methods rest ih =>
    rw [sumBy, ih, List.flatMap_cons, List.length_append, Dict.size, Dict.values, List.length_map]

theorem Kept.mem_interfaceNames (h : r.Kept) {i : String} :
    i ∈ r.interfaceNames ↔ ∃ k, (r.lookup ⟨i, k⟩).isSome = true := by
  rw [interfaceNames, Dict.mem_keys]
  cases hi : r.interfaces.get? i with
  | none => simp [lookup, hi]
  | some methods =>
    obtain ⟨k, b, hk⟩ := Dict.exists_get?_of_isEmpty_eq_false (h.nonempty i methods hi)
    simp only [Option.isSome_some, true_iff]
    exact ⟨k, by simp [lookup, hi, hk]⟩

theorem mem_methodNames {i k : String} :
    k ∈ r.methodNames i ↔ (r.lookup ⟨i, k⟩).isSome = true := by
  rw [methodNames, lookup]
  cases hi : r.interfaces.get? i with
  | none => simp
  | some methods => simp [Dict.mem_keys]

theorem nodup_methodNames (r : Registry σ) (i : String) : (r.methodNames i).Nodup := by
  rw [methodNames]
  split
  · exact List.nodup_nil
  · exact Dict.nodup_keys _

end

end Registry

end BindingRegistry
