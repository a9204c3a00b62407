import BindingRegistry.Proofs.Registry.Flat

/-!
The two levels hold one flat map. Whatever a registry has gone through, its
lookups, its size, its lists and its groups are those of the flat map that has
gone through the same, and a removal answers with what it deletes there.
-/
namespace BindingRegistry

variable {σ : Type}

/-- A set has as many elements as a list of them without repetitions. -/
theorem ncard_eq_length {s : Set α} {l : List α} (hl : l.Nodup) (h : ∀ a, a ∈ s ↔ a ∈ l) :
    s.ncard = l.length := by
  classical
  have hs : s = ↑l.toFinset := by
    ext a
    rw [h, Finset.mem_coe, List.mem_toFinset]
  rw [hs, Set.ncard_coe_finset, List.toFinset_card_of_nodup hl]

namespace Registry

structure Holds (r : Registry σ) (m : FlatMap σ) : Prop where
  lookup : ∀ n, r.lookup n = m n
  named : ∀ n b, m n = some b → b.name = n
  finite : m.names.Finite
  size : r.size = m.names.ncard
  bindings : (r.bindings.map (·.name)).Nodup ∧ ∀ n b, m n = some b ↔ b ∈ r.bindings ∧ b.name = n
  interfaceNames : r.interfaceNames.Nodup ∧ ∀ i, i ∈ r.interfaceNames ↔ ∃ k, ⟨i, k⟩ ∈ m.names
  methodNames : ∀ i, (r.methodNames i).Nodup ∧ ∀ k, k ∈ r.methodNames i ↔ ⟨i, k⟩ ∈ m.names
  nonempty : ∀ i methods, r.interfaces.get? i = some methods → methods.isEmpty = false
  selectInterface : ∀ i, (r.selectInterface i).Nodup ∧
    ∀ n, n ∈ r.selectInterface i ↔ n ∈ m.names ∧ n.interface = i
  selectMatching : ∀ p, (r.selectMatching p).Nodup ∧
    ∀ n, n ∈ r.selectMatching p ↔ n ∈ m.names ∧ p n.text = true

section

variable {r : Registry σ}

theorem mem_selectInterface {n : QualifiedName} {i : String} :
    n ∈ r.selectInterface i ↔ (r.lookup n).isSome = true ∧ n.interface = i := by
  rw [selectInterface, List.mem_map]
  constructor
  · rintro ⟨k, hk, rfl⟩
    exact ⟨mem_methodNames.1 hk, rfl⟩
  · rintro ⟨hn, rfl⟩
    exact ⟨n.method, mem_methodNames.2 hn, rfl⟩

theorem nodup_selectInterface (r : Registry σ) (i : String) : (r.selectInterface i).Nodup :=
  (nodup_methodNames r i).map fun _ _ h => (QualifiedName.mk.inj h).2

theorem Kept.finite_names (h : r.Kept) : (FlatMap.names r.lookup).Finite :=
  r.selectAll.finite_toSet.subset fun _ hn => h.mem_selectAll.2 hn

theorem Kept.size_eq_ncard (h : r.Kept) : r.size = (FlatMap.names r.lookup).ncard := by
  have hlen : r.selectAll.length = r.size := by rw [size_eq_length, selectAll, List.length_map]
  rw [← hlen]
  exact (ncard_eq_length h.nodup_selectAll fun _ => h.mem_selectAll.symm).symm

/-- With no interface empty, listings and removals can be told from the bindings alone. -/
theorem Kept.holds (h : r.Kept) : r.Holds r.lookup where
  lookup _ := rfl
  named := h.named
  finite := h.finite_names
  size := h.size_eq_ncard
  bindings := ⟨h.nodup_selectAll, fun _ _ => h.lookup_eq_some_iff⟩
  interfaceNames := ⟨Dict.nodup_keys _, fun _ => h.mem_interfaceNames⟩
  methodNames i := ⟨nodup_methodNames r i, fun _ => mem_methodNames⟩
  nonempty := h.nonempty
  selectInterface i := ⟨nodup_selectInterface r i, fun _ => mem_selectInterface⟩
  selectMatching p := by
    refine ⟨h.nodup_selectAll.filter _, fun n => ?_⟩
    rw [Registry.selectMatching, List.mem_filter, h.mem_selectAll]
    rfl

/-- The number of removed methods is the number of names in the interface. -/
theorem removeInterface_count (r : Registry σ) (i : String) :
    (r.removeInterface i).value.2 = (r.selectInterface i).length := by
  rw [removeInterface, selectInterface, List.length_map, methodNames]
  cases r.interfaces.get? i with
  | none => rfl
  | some methods => exact (List.length_map _).symm

def present (r : Registry σ) (names : List QualifiedName) : Set QualifiedName :=
  {n | n ∈ names ∧ (r.lookup n).isSome = true}

theorem present_finite (r : Registry σ) (names : List QualifiedName) : (r.present names).Finite :=
  names.finite_toSet.subset fun _ h => h.1

theorem present_remove (r : Registry σ) (n : QualifiedName) (ns : List QualifiedName) :
    (r.remove n).value.1.present ns = {k | k ∈ r.present ns ∧ k ≠ n} := by
  ext k
  simp only [present, lookup_remove, Set.mem_ofPred_eq]
  by_cases hk : k = n
  · simp [hk]
  · simp [hk]

/-- A name is removed once, however often it is in the group. -/
theorem removeEach_count (r : Registry σ) (names : List QualifiedName) :
    (r.removeEach names).value.2 = (r.present names).ncard := by
  induction names generalizing r with
  | nil =>
    have hempty : r.present [] = ∅ := by
      ext k
      simp [present]
    rw [hempty, Set.ncard_empty]
    rfl
  | cons n ns ih =>
    have hstep : (r.removeEach (n :: ns)).value.2 = ((r.remove n).value.1.removeEach ns).value.2 +
        (if (r.lookup n).isSome then 1 else 0) := by
      rw [← remove_value]
      rfl
    rw [hstep, ih, present_remove]
    cases hn : (r.lookup n).isSome with
    | false =>
      have hsame : r.present (n :: ns) = {k | k ∈ r.present ns ∧ k ≠ n} := by
        ext k
        by_cases hk : k = n
        · simp [present, hk, hn]
        · simp [present, hk]
      rw [hsame]
      rfl
    | true =>
      have hinsert : r.present (n :: ns) = Insert.insert n {k | k ∈ r.present ns ∧ k ≠ n} := by
        ext k
        by_cases hk : k = n
        · simp [present, hk, hn]
        · simp [present, hk]
      have hfinite : {k | k ∈ r.present ns ∧ k ≠ n}.Finite :=
        (r.present_finite ns).subset fun _ hk => hk.1
      rw [hinsert, Set.ncard_insert_of_notMem (fun hmem => hmem.2 rfl) hfinite]
      rfl

end

/-- After any sequence of changes a registry holds exactly the flat map that went through the
same insertions and deletions, and removing one name, an interface or a group gives back what is
deleted there: the binding, or the number of names. -/
theorem after_holds_flat_map (settings : List Builder.Setting) (changes : List (Change σ)) :
    let r := after settings changes
    let m := (Flat.after settings changes).bindings
    r.Holds m ∧ (∀ n, (r.remove n).value.2 = m n) ∧
      (∀ i, (r.removeInterface i).value.2 = {n | n ∈ m.names ∧ n.interface = i}.ncard) ∧
      ∀ names, (r.removeEach names).value.2 = {n | n ∈ m.names ∧ n ∈ names}.ncard := by
  intro r m
  have hm : r.lookup = m := lookup_after settings changes
  have hkept : r.Kept := (reachable_after settings changes).kept
  rw [← hm]
  refine ⟨hkept.holds, remove_value r, fun i => ?_, fun names => ?_⟩
  · rw [removeInterface_count]
    exact (ncard_eq_length (nodup_selectInterface r i) fun _ => mem_selectInterface.symm).symm
  · rw [removeEach_count]
    congr 1
    ext n
    exact and_comm

end Registry

end BindingRegistry
