import BindingRegistry.Proofs.Registry.Ledger

/-!
What is done to a group is done to each of its names. A selection names every
binding that satisfies a predicate, each once, and nothing else. Configuring
the group leaves under each name what configuring that name alone leaves there,
and changes nothing besides; removing it takes out these names and counts them,
and with them go the interfaces that have no other method.
-/
namespace BindingRegistry

variable {σ : Type}

/-- A pattern without text is matched in every text. -/
theorem Pattern.matchesSome_empty (s : String) : Pattern.empty.matchesSome s = true := by
  rw [matchesSome, List.any_eq_true]
  exact ⟨0, List.mem_range.2 (Nat.succ_pos _), rfl⟩

/-- What adjustments do to a binding, one after the other. -/
def Adjustment.applyAll (as : List (Adjustment σ)) (b : Binding σ) : Binding σ :=
  as.foldl (fun b a => a.apply b) b

namespace Registry

/-- The registry after a group was configured, all of it at each step. -/
def adjustGroup (r : Registry σ) (names : List QualifiedName) (as : List (Adjustment σ)) :
    Registry σ :=
  as.foldl (fun r a => r.apply (.adjustEach names a)) r

def adjustOne (r : Registry σ) (n : QualifiedName) (as : List (Adjustment σ)) : Registry σ :=
  as.foldl (fun r a => r.apply (.adjust n a)) r

structure Selects (r : Registry σ) (names : List QualifiedName) (wanted : QualifiedName → Prop) :
    Prop where
  nodup : names.Nodup
  mem_iff : ∀ n, n ∈ names ↔ (r.lookup n).isSome = true ∧ wanted n

/-- A group was configured: each name as if it had been alone, and nothing else. -/
structure Configured (r : Registry σ) (names : List QualifiedName) (as : List (Adjustment σ))
    (r' : Registry σ) : Prop where
  named : ∀ n ∈ names, r'.lookup n = (r.adjustOne n as).lookup n
  others : ∀ n, n ∉ names → r'.lookup n = r.lookup n
  revision : r'.revision = r.revision
  rest : r.SameRest r'

structure Cleared (r : Registry σ) (names : List QualifiedName) (r' : Registry σ) (count : Nat) :
    Prop where
  named : ∀ n ∈ names, r'.lookup n = none
  others : ∀ n, n ∉ names → r'.lookup n = r.lookup n
  count : count = names.length
  revision : r'.revision = r.revision + names.length
  /-- An interface goes when all its methods do. -/
  dropped : ∀ i ∈ r.interfaceNames,
    (i ∉ r'.interfaceNames ↔ ∀ k ∈ r.methodNames i, ⟨i, k⟩ ∈ names)
  old : ∀ i ∈ r'.interfaceNames, i ∈ r.interfaceNames
  rest : r.SameRest r'

section

variable {r : Registry σ} {names : List QualifiedName} {wanted : QualifiedName → Prop}

theorem Kept.selects_all (h : r.Kept) : r.Selects r.selectAll fun _ => True where
  nodup := h.nodup_selectAll
  mem_iff n := by rw [h.mem_selectAll, and_true]

theorem selects_interface (r : Registry σ) (i : String) :
    r.Selects (r.selectInterface i) (·.interface = i) where
  nodup := nodup_selectInterface r i
  mem_iff _ := mem_selectInterface

/-- Of a selection, those that satisfy another predicate as well. -/
theorem Selects.filter (h : r.Selects names wanted) (p : QualifiedName → Bool) :
    r.Selects (names.filter p) fun n => wanted n ∧ p n = true where
  nodup := h.nodup.filter p
  mem_iff n := by rw [List.mem_filter, h.mem_iff, and_assoc]

theorem Kept.selects_matching (h : r.Kept) (p : String → Bool) :
    r.Selects (r.selectMatching p) fun n => p n.text = true := by
  have hfilter := h.selects_all.filter fun n => p n.text
  simp only [true_and] at hfilter
  exact hfilter

theorem admitted_empty : admitted "" = .ok fun _ => true := by
  have hparse : Pattern.parse? "" = some .empty := rfl
  rw [admitted, hparse]
  exact congrArg Except.ok (funext Pattern.matchesSome_empty)

theorem selectPattern_empty (r : Registry σ) : r.selectPattern "" = .ok r.selectAll := by
  rw [selectPattern, admitted_empty]
  exact congrArg Except.ok (List.filter_eq_self.2 fun _ _ => rfl)

/-- A binding is changed as often as the group has its name. -/
theorem lookup_updateEach_count (r : Registry σ) (names : List QualifiedName)
    (f : Binding σ → Binding σ) (n : QualifiedName) :
    (r.updateEach names f).lookup n = (r.lookup n).map f^[names.count n] :=
  (congrFun (congrArg Flat.bindings (flat_updateEach r names f)) n).trans
    (FlatMap.alterEach_apply _ names f n)

/-- A binding is changed once if its name is in the group once. -/
theorem lookup_updateEach (r : Registry σ) (h : names.Nodup) (f : Binding σ → Binding σ)
    (n : QualifiedName) : (r.updateEach names f).lookup n =
      if n ∈ names then (r.lookup n).map f else r.lookup n := by
  rw [lookup_updateEach_count]
  -- The change is made for each time the name is listed, which is once or never.
  split
  · next hn =>
    rw [List.count_eq_one_of_mem h hn]
    rfl
  · next hn =>
    rw [List.count_eq_zero_of_not_mem hn]
    exact Option.map_id'

/-- A step on a group is a step on each of its bindings, as no name comes twice. -/
theorem lookup_adjustGroup (r : Registry σ) (h : names.Nodup) (as : List (Adjustment σ))
    (n : QualifiedName) : (r.adjustGroup names as).lookup n =
      if n ∈ names then (r.lookup n).map (Adjustment.applyAll as) else r.lookup n := by
  induction as generalizing r with
  | nil =>
    split
    · exact Option.map_id'.symm
    · rfl
  | cons a as ih =>
    refine (ih (r.updateEach names a.apply)).trans ?_
    rw [lookup_updateEach r h]
    split
    · rw [Option.map_map]
      rfl
    · rfl

/-- One name is a group. -/
theorem lookup_adjustOne (r : Registry σ) (n : QualifiedName) (as : List (Adjustment σ)) :
    (r.adjustOne n as).lookup n = (r.lookup n).map (Adjustment.applyAll as) := by
  have hgroup := lookup_adjustGroup r (List.nodup_singleton n) as n
  rwa [if_pos (List.mem_singleton_self n)] at hgroup

theorem sameRest_updateEach (r : Registry σ) (names : List QualifiedName)
    (f : Binding σ → Binding σ) : r.SameRest (r.updateEach names f) :=
  updateEach_induction (fun r' n h => h.trans (sameRest_update r' n f)) names (.refl r)

/-- A step of a group leaves the revision and all that is not a binding alone. -/
theorem still_adjustGroup (r : Registry σ) (names : List QualifiedName)
    (as : List (Adjustment σ)) : (r.adjustGroup names as).revision = r.revision ∧
      r.SameRest (r.adjustGroup names as) := by
  induction as generalizing r with
  | nil => exact ⟨rfl, .refl r⟩
  | cons a as ih =>
    obtain ⟨hrevision, hrest⟩ := ih (r.updateEach names a.apply)
    have hstep := (booked_updateEach r names (adjustment_callable a)).revision
    exact ⟨hrevision.trans hstep, (sameRest_updateEach r names a.apply).trans hrest⟩

theorem configured_adjustGroup (r : Registry σ) (h : names.Nodup) (as : List (Adjustment σ)) :
    r.Configured names as (r.adjustGroup names as) where
  named n hn := by rw [lookup_adjustGroup r h, if_pos hn, lookup_adjustOne]
  others n hn := by rw [lookup_adjustGroup r h, if_neg hn]
  revision := (still_adjustGroup r names as).1
  rest := (still_adjustGroup r names as).2

theorem Reachable.adjustGroup (hr : r.Reachable) (names : List QualifiedName)
    (as : List (Adjustment σ)) : (r.adjustGroup names as).Reachable := by
  induction as generalizing r with
  | nil => exact hr
  | cons a as ih => exact ih (hr.changed (.adjustEach names a))

/-- A group that was configured is the same group. -/
theorem Selects.adjustGroup (h : r.Selects names wanted) (as : List (Adjustment σ)) :
    (r.adjustGroup names as).Selects names wanted where
  nodup := h.nodup
  mem_iff n := by
    rw [h.mem_iff, lookup_adjustGroup r h.nodup]
    split
    · rw [Option.isSome_map]
    · rfl

theorem lookup_removeEach (r : Registry σ) (names : List QualifiedName) (n : QualifiedName) :
    (r.removeEach names).value.1.lookup n = if n ∈ names then none else r.lookup n :=
  congrFun (congrArg Flat.bindings (flat_removeEach r names)) n

/-- All names of a selection are counted. -/
theorem Selects.removeEach_count (h : r.Selects names wanted) :
    (r.removeEach names).value.2 = names.length := by
  rw [Registry.removeEach_count]
  refine ncard_eq_length h.nodup fun n => ?_
  exact ⟨fun hn => hn.1, fun hn => ⟨hn, ((h.mem_iff n).1 hn).1⟩⟩

theorem Selects.removeEach_revision (h : r.Selects names wanted) :
    (r.removeEach names).value.1.revision = r.revision + names.length := by
  rw [(booked_removeEach r names).revision, Callables.length_dropsOf h.nodup]
  intro n hn
  rw [isSome_callables]
  exact ((h.mem_iff n).1 hn).1

theorem kept_removeEach (h : r.Kept) (names : List QualifiedName) :
    (r.removeEach names).value.1.Kept :=
  removeEach_induction (fun _ n => kept_remove n) names h

/-- An interface stays with a method that is not in the group. -/
theorem Kept.mem_interfaceNames_removeEach (h : r.Kept) {i : String} :
    i ∈ (r.removeEach names).value.1.interfaceNames ↔
      ∃ k ∈ r.methodNames i, (⟨i, k⟩ : QualifiedName) ∉ names := by
  rw [(kept_removeEach h names).mem_interfaceNames]
  refine exists_congr fun k => ?_
  rw [lookup_removeEach, mem_methodNames]
  by_cases hk : (⟨i, k⟩ : QualifiedName) ∈ names
  · simp [hk]
  · simp [hk]

theorem Selects.cleared (h : r.Selects names wanted) (hkept : r.Kept) :
    r.Cleared names (r.removeEach names).value.1 (r.removeEach names).value.2 where
  named n hn := by rw [lookup_removeEach, if_pos hn]
  others n hn := by rw [lookup_removeEach, if_neg hn]
  count := h.removeEach_count
  revision := h.removeEach_revision
  dropped i _ := by
    rw [hkept.mem_interfaceNames_removeEach]
    simp only [not_exists, not_and, not_not]
  old i hi := by
    obtain ⟨k, hk, -⟩ := hkept.mem_interfaceNames_removeEach.1 hi
    exact hkept.mem_interfaceNames.2 ⟨k, mem_methodNames.1 hk⟩
  rest := removeEach_induction (fun r' n h => h.trans (sameRest_remove r' n)) names (.refl r)

end

/-- The selections of a reachable registry, by no condition, by an interface, by a predicate on
the dotted names and by a pattern, name the bindings that satisfy it, each once. Of whatever is
selected, any configuration of the group is that of each binding alone and of nothing else, and
leaves the selection as it is; its removal takes out, and counts, exactly the selected bindings. -/
theorem reachable_groups_pointwise {r : Registry σ} (hr : r.Reachable) :
    (r.Selects r.selectAll fun _ => True) ∧
    (∀ i, r.Selects (r.selectInterface i) (·.interface = i)) ∧
    (∀ p, r.Selects (r.selectMatching p) fun n => p n.text = true) ∧
    (∀ pattern p, admitted pattern = .ok p → ∃ names, r.selectPattern pattern = .ok names ∧
      r.Selects names fun n => p n.text = true) ∧
    r.selectPattern "" = .ok r.selectAll ∧
    ∀ names wanted, r.Selects names wanted → ∀ as,
      let r' := r.adjustGroup names as
      r.Configured names as r' ∧ r'.Selects names wanted ∧
        r'.Cleared names (r'.removeEach names).value.1 (r'.removeEach names).value.2 := by
  refine ⟨hr.kept.selects_all, selects_interface r, hr.kept.selects_matching, ?_,
    selectPattern_empty r, ?_⟩
  · intro pattern p hp
    exact ⟨r.selectMatching p, by rw [selectPattern, hp]; rfl, hr.kept.selects_matching p⟩
  · intro names wanted h as
    have hselects := h.adjustGroup as
    exact ⟨configured_adjustGroup r h.nodup as, hselects,
      hselects.cleared (hr.adjustGroup names as).kept⟩

/-- A tap and two lamps, one of them alone in its interface. -/
def gardenRegistry : Registry Unit :=
  after [] <| [⟨"Garden", "tap"⟩, ⟨"Garden", "lamp"⟩, ⟨"Shed", "lamp"⟩].map fun n =>
    .register n (.getter (.typed .bool) (pure true))

def lampNames : List QualifiedName := [⟨"Garden", "lamp"⟩, ⟨"Shed", "lamp"⟩]

def lampSettings : List (Adjustment Unit) :=
  [.addFilter fun _ is => pure (false, is), .inject ⟨.i64, .wrap .i64 3⟩, .clearFilters]

def litGarden : Registry Unit := gardenRegistry.adjustGroup lampNames lampSettings

/-- A pattern selects the two lamps. Configured together they are as if alone, and the tap stays as
it was; with its lamp the shed goes. -/
theorem garden_lamps :
    gardenRegistry.selectPattern "lamp" = .ok lampNames ∧
    litGarden.lookup ⟨"Shed", "lamp"⟩ =
      (gardenRegistry.adjustOne ⟨"Shed", "lamp"⟩ lampSettings).lookup ⟨"Shed", "lamp"⟩ ∧
    (litGarden.removeEach lampNames).value.1.lookup ⟨"Garden", "tap"⟩ =
      gardenRegistry.lookup ⟨"Garden", "tap"⟩ ∧
    (litGarden.removeEach lampNames).value.1.revision = 5 ∧
    "Shed" ∈ litGarden.interfaceNames ∧
    "Shed" ∉ (litGarden.removeEach lampNames).value.1.interfaceNames := by
  have hr : gardenRegistry.Reachable := reachable_after [] _
  obtain ⟨-, -, -, hpattern, -, hgroup⟩ := reachable_groups_pointwise hr
  have hselected : gardenRegistry.selectPattern "lamp" = .ok lampNames := rfl
  obtain ⟨names, hnames, hselects⟩ := hpattern "lamp" _ rfl
  obtain rfl : lampNames = names := Except.ok.inj (hselected.symm.trans hnames)
  obtain ⟨hconfigured, -, hcleared⟩ := hgroup lampNames _ hselects lampSettings
  have htap : (⟨"Garden", "tap"⟩ : QualifiedName) ∉ lampNames := by decide
  have hshed : "Shed" ∈ litGarden.interfaceNames := by decide
  refine ⟨hselected, hconfigured.named _ (by decide), ?_, ?_, hshed, ?_⟩
  · exact (hcleared.others _ htap).trans (hconfigured.others _ htap)
  · exact hcleared.revision.trans (congrArg (· + 2) hconfigured.revision)
  · exact (hcleared.dropped "Shed" hshed).2 (by decide)

end Registry

end BindingRegistry
