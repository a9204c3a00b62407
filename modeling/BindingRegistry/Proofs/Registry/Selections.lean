import BindingRegistry.Proofs.Registry.Exposures
import BindingRegistry.Proofs.Registry.Filters

/-!
When a selection is a set. What a registry selects under a condition has every
name once, so it is as long as the bindings it covers are many, and a filter
that is attached to it goes to each of them once. An exposure selects the names
that it registered, one for each member: this is a set exactly if no two of the
members have one name, and otherwise a filter is attached as often as the name
was registered.
-/
namespace BindingRegistry.Registry

variable {σ : Type}

def covered (r : Registry σ) (names : List QualifiedName) : Set QualifiedName :=
  {n | n ∈ names ∧ (r.lookup n).isSome = true}

structure IsSet (r : Registry σ) (names : List QualifiedName) : Prop where
  nodup : names.Nodup
  length : names.length = (r.covered names).ncard
  /-- A filter for the selection is one filter for each binding. -/
  attached : ∀ f, ∀ n ∈ r.covered names,
    (r.apply (.adjustEach names (.addFilter f))).lookup n = (r.lookup n).map (·.addFilter f)

section

variable {r : Registry σ} {names : List QualifiedName} {wanted : QualifiedName → Prop}

/-- Configuring a group takes no binding away and adds none. -/
theorem isSome_lookup_adjustGroup (r : Registry σ) (names : List QualifiedName)
    (as : List (Adjustment σ)) (n : QualifiedName) :
    ((r.adjustGroup names as).lookup n).isSome = (r.lookup n).isSome := by
  induction as generalizing r with
  | nil => rfl
  | cons a as ih =>
    refine (ih (r.updateEach names a.apply)).trans ?_
    rw [lookup_updateEach_count, Option.isSome_map]

/-- Where all names have bindings, as many are covered as there are different names. -/
theorem ncard_covered (h : ∀ n ∈ names, (r.lookup n).isSome = true) :
    (r.covered names).ncard = names.dedup.length := by
  refine ncard_eq_length names.nodup_dedup fun n => ?_
  rw [List.mem_dedup]
  exact ⟨fun hn => hn.1, fun hn => ⟨hn, h n hn⟩⟩

theorem isSet_iff_nodup (h : ∀ n ∈ names, (r.lookup n).isSome = true) :
    r.IsSet names ↔ names.Nodup := by
  refine ⟨fun hset => hset.nodup, fun hnodup => ⟨hnodup, ?_, fun f n hn => ?_⟩⟩
  · rw [ncard_covered h, hnodup.dedup]
  · exact (lookup_updateEach r hnodup _ n).trans (if_pos hn.1)

theorem isSet_adjustGroup_iff_nodup (h : ∀ n ∈ names, (r.lookup n).isSome = true)
    (as : List (Adjustment σ)) : (r.adjustGroup names as).IsSet names ↔ names.Nodup := by
  refine isSet_iff_nodup fun n hn => ?_
  rw [isSome_lookup_adjustGroup]
  exact h n hn

theorem Selects.isSet (h : r.Selects names wanted) (as : List (Adjustment σ)) :
    (r.adjustGroup names as).IsSet names :=
  (isSet_adjustGroup_iff_nodup (fun n hn => ((h.mem_iff n).1 hn).1) as).2 h.nodup

/-- Whatever an exposure selects has a binding. -/
theorem isSome_lookup_expose (r : Registry σ) (interface : String) (wanted : String → Bool)
    (members : List (Member σ)) : ∀ n ∈ (r.expose interface wanted members).value.2,
      ((r.expose interface wanted members).value.1.lookup n).isSome = true := by
  rw [expose_value_eq]
  intro n hn
  obtain ⟨m, hm, rfl⟩ := List.mem_map.1 hn
  have hlast : (Member.lastUnder interface ⟨interface, m.name⟩
      (Member.exposed wanted members)).isSome = true := by
    rw [Member.lastUnder, List.find?_isSome]
    exact ⟨m, List.mem_reverse.2 hm, decide_eq_true rfl⟩
  rw [(exposed_registered r interface _).lookup, Option.isSome_or, Option.isSome_map, hlast]
  rfl

theorem nodup_expose_iff (r : Registry σ) (interface : String) (wanted : String → Bool)
    (members : List (Member σ)) : (r.expose interface wanted members).value.2.Nodup ↔
      ((Member.exposed wanted members).map Member.name).Nodup := by
  have hinj : Function.Injective fun k : String => (⟨interface, k⟩ : QualifiedName) :=
    fun k k' h => congrArg QualifiedName.method h
  rw [expose_value_eq, ← List.nodup_map_iff hinj, List.map_map]
  rfl

end

/-- In every registry that can be reached, the selection of all bindings, of an interface and of a
pattern is a set, also after the selection was configured. The selection that an exposure leaves is
one exactly if the members it registered have different names. As many bindings as there are
different names are covered by it, and a filter for it is attached to a binding as often as the
selection has its name. -/
theorem reachable_selections_sets {r : Registry σ} (hr : r.Reachable) :
    (∀ as, (r.adjustGroup r.selectAll as).IsSet r.selectAll) ∧
    (∀ i as, (r.adjustGroup (r.selectInterface i) as).IsSet (r.selectInterface i)) ∧
    (∀ pattern names, r.selectPattern pattern = .ok names → ∀ as,
      (r.adjustGroup names as).IsSet names) ∧
    ∀ interface wanted members,
      let (r', names) := (r.expose interface wanted members).value
      (∀ as, (r'.adjustGroup names as).IsSet names ↔
        ((Member.exposed wanted members).map Member.name).Nodup) ∧
      (r'.covered names).ncard = names.dedup.length ∧
      ∀ f n b, r'.lookup n = some b → ∃ b',
        (r'.apply (.adjustEach names (.addFilter f))).lookup n = some b' ∧
        b'.filters = b.filters ++ List.replicate (names.count n) f := by
  refine ⟨hr.kept.selects_all.isSet, fun i => (selects_interface r i).isSet, ?_, ?_⟩
  · intro pattern names hnames
    rw [selectPattern] at hnames
    cases hp : admitted pattern with
    | error e => rw [hp] at hnames; cases hnames
    | ok p =>
      rw [hp] at hnames
      obtain rfl : r.selectMatching p = names := Except.ok.inj hnames
      exact (hr.kept.selects_matching p).isSet
  · intro interface wanted members
    have hfound := isSome_lookup_expose r interface wanted members
    refine ⟨fun as => ?_, ncard_covered hfound, fun f n b hb => ?_⟩
    · rw [isSet_adjustGroup_iff_nodup hfound, nodup_expose_iff]
    · refine ⟨_, (lookup_updateEach_count _ _ _ n).trans (congrArg _ hb), ?_⟩
      exact iterate_addFilter_filters f b _

def answering (k : Int) : Operation Nat where
  params := []
  returns := .typed .i64
  run _ := pure (.wrap .i64 k)

def plainMembers : List (Member Nat) :=
  [.method "answer" (answering 42), .method "answer" (answering 43)]

def plainExposure : Registry Nat × List QualifiedName :=
  ((after [] []).expose "Plain" (fun _ => true) plainMembers).value

/-- The selection of the exposure with a filter that counts its runs. -/
def plainCounted : Registry Nat :=
  plainExposure.1.apply (.adjustEach plainExposure.2 (.addFilter (.counting (· + 1))))

/-- The exposure selects two names and covers one binding; the filter is attached to it twice, and
one call is counted as two. -/
theorem answer_selected_twice :
    plainExposure.2 = [⟨"Plain", "answer"⟩, ⟨"Plain", "answer"⟩] ∧
    (plainExposure.1.covered plainExposure.2).ncard = 1 ∧
    (plainCounted.lookup ⟨"Plain", "answer"⟩).map (·.filters.length) = some 2 ∧
    (plainCounted.invoke ⟨"Plain", "answer"⟩ .empty []).result 0 = (.ok (.integer 43), 2) ∧
    ¬ plainExposure.1.IsSet plainExposure.2 := by
  have hnames : plainExposure.2 = [⟨"Plain", "answer"⟩, ⟨"Plain", "answer"⟩] := rfl
  have hfound : ∀ n ∈ plainExposure.2, (plainExposure.1.lookup n).isSome = true :=
    isSome_lookup_expose (after [] []) "Plain" (fun _ => true) plainMembers
  refine ⟨hnames, ?_, rfl, rfl, fun hset => ?_⟩
  · rw [ncard_covered hfound, hnames]
    rfl
  · have hnodup := hset.nodup
    rw [hnames] at hnodup
    exact absurd hnodup (by decide)

/-- A pattern selects the binding once, however often its name was announced; to expose the object
again selects it twice, and to expose a part of it that has the name once does not. -/
theorem answer_selected_once :
    plainExposure.1.selectPattern "swer$" = .ok [⟨"Plain", "answer"⟩] ∧
    (plainExposure.1.adjustGroup [⟨"Plain", "answer"⟩] [.addFilter (.counting (· + 1))]).IsSet
      [⟨"Plain", "answer"⟩] ∧
    ¬ (plainExposure.1.expose "Plain" (fun _ => true) plainMembers).value.1.IsSet
      (plainExposure.1.expose "Plain" (fun _ => true) plainMembers).value.2 ∧
    (plainExposure.1.expose "Plain" (fun _ => true) (plainMembers.drop 1)).value.1.IsSet
      (plainExposure.1.expose "Plain" (fun _ => true) (plainMembers.drop 1)).value.2 := by
  have hr : plainExposure.1.Reachable := reachable_after []
    [.expose "Plain" (fun _ => true) plainMembers]
  obtain ⟨-, -, hpattern, hexpose⟩ := reachable_selections_sets hr
  have hselected : plainExposure.1.selectPattern "swer$" = .ok [⟨"Plain", "answer"⟩] := rfl
  refine ⟨hselected, hpattern _ _ hselected _, fun hset => ?_, ?_⟩
  · have hnodup := ((hexpose "Plain" (fun _ => true) plainMembers).1 []).1 hset
    exact absurd hnodup (by decide)
  · exact ((hexpose "Plain" (fun _ => true) (plainMembers.drop 1)).1 []).2 (by decide)

end BindingRegistry.Registry
