import BindingRegistry.Proofs.Registry.Descriptions
import BindingRegistry.Proofs.Text.Bytes

/-!
Dotted names in descriptions. Lines are told apart and sorted by interface and
method, while the dotted name is interface and method with a dot between them,
whatever dots they have themselves. So the dotted names of a description are
distinct and ascending as long as no interface goes on behind another one with
the dot or with a character below it; where one does, two lines may share a
dotted name, and a later line may have a lesser one.
-/
namespace BindingRegistry

variable {σ : Type}

namespace QualifiedName

variable {n m : QualifiedName}

/-- The interface of `m` goes on behind that of `n` over a dot, with what stands before the method
of `m`, over a dot too, in the method of `n`. -/
def Overlaps (n m : QualifiedName) : Prop :=
  ∃ x, m.interface = n.interface ++ "." ++ x ∧ n.method = x ++ "." ++ m.method

/-- The interface of `m` goes on behind that of `n` with a character below the dot, or with a dot
and something that stands, with the method of `m` over a dot, no later than the method of `n`. -/
def Undercuts (m n : QualifiedName) : Prop :=
  (∃ c x, c < '.' ∧ m.interface = n.interface.push c ++ x) ∨
    ∃ x, m.interface = n.interface ++ "." ++ x ∧ x ++ "." ++ m.method ≤ n.method

theorem toList_text (n : QualifiedName) :
    n.text.toList = n.interface.toList ++ '.' :: n.method.toList := by
  simp [text]

theorem overlaps_iff : n.Overlaps m ↔ ∃ x : List Char,
    m.interface.toList = n.interface.toList ++ '.' :: x ∧
      n.method.toList = x ++ '.' :: m.method.toList := by
  constructor
  · rintro ⟨x, hi, hm⟩
    exact ⟨x.toList, by simp [hi], by simp [hm]⟩
  · rintro ⟨x, hi, hm⟩
    refine ⟨String.ofList x, ?_, ?_⟩
    · rw [← String.toList_inj, hi]
      simp
    · rw [← String.toList_inj, hm]
      simp

/-- Of two names in their order the dotted forms are the same only by the dots within. -/
theorem Before.text_eq_iff (h : n.Before m) : n.text = m.text ↔ n.Overlaps m := by
  rw [← String.toList_inj, toList_text, toList_text, append_cons_eq_iff, overlaps_iff]
  constructor
  · rintro (⟨hi, hm⟩ | hover | ⟨x, hi, -⟩)
    · exact absurd (QualifiedName.ext (String.toList_inj.1 hi) (String.toList_inj.1 hm)) h.ne
    · exact hover
    · -- The interface that goes on behind the other one is the later one.
      have hlt : m.interface < n.interface :=
        String.lt_iff.2 (lt_iff_continued_or_precedes.2 (.inl ⟨'.', x, hi⟩))
      exact absurd (.inl hlt) h.asymm
  · exact fun hover => .inr (.inl hover)

/-- Names stand in the order of their dotted forms unless the interface of the later one undercuts
the other. -/
theorem Before.text_lt (h : n.Before m) (hcut : ¬ m.Undercuts n) : n.text < m.text := by
  rw [String.lt_iff, toList_text, toList_text]
  rcases h with h | ⟨h, hlt⟩
  · rcases joined_lt_or (String.lt_iff.1 h) with hlt | ⟨c, x, hc, hi⟩ | ⟨x, hi, hle⟩
    · exact hlt
    · refine absurd (.inl ⟨c, String.ofList x, hc, ?_⟩) hcut
      rw [← String.toList_inj, hi]
      simp
    · refine absurd (.inr ⟨String.ofList x, ?_, ?_⟩) hcut
      · rw [← String.toList_inj, hi]
        simp
      · rw [← String.not_lt, String.lt_iff]
        simpa using hle
  · rw [h]
    exact List.append_left_lt (List.cons_lt_cons_iff.2 (.inr ⟨rfl, String.lt_iff.1 hlt⟩))

end QualifiedName

/-- The interface `j` goes on behind `i` with the dot or with a character below it. -/
def RunsOn (i j : String) : Prop := ∃ c ∈ goesOn? i.toList j.toList, c ≤ '.'

-- By name, for a search may find the instance that goes through all characters.
instance (i j : String) : Decidable (RunsOn i j) := Option.decidableExistsMem _

theorem QualifiedName.Undercuts.runsOn {n m : QualifiedName} (h : m.Undercuts n) :
    RunsOn n.interface m.interface := by
  have hgoesOn {c : Char} {x : String} (hi : m.interface = n.interface.push c ++ x) :
      c ∈ goesOn? n.interface.toList m.interface.toList :=
    goesOn?_eq_some_iff.2 ⟨x.toList, by simp [hi]⟩
  rcases h with ⟨c, x, hc, hi⟩ | ⟨x, hi, -⟩
  · exact ⟨c, hgoesOn hi, Std.le_of_lt hc⟩
  · exact ⟨'.', hgoesOn hi, by decide⟩

namespace Registry

variable {r : Registry σ}

theorem Kept.name_of_mem_describe (h : r.Kept) {d : Descriptor} (hd : d ∈ r.describe) :
    d.name = d.subject.text := (h.mem_describe.1 hd).1

theorem Kept.interface_of_mem_describe (h : r.Kept) {d : Descriptor} (hd : d ∈ r.describe) :
    d.interface ∈ r.interfaceNames := by
  have hshown := (h.mem_describe.1 hd).2
  refine h.mem_interfaceNames.2 ⟨d.method, ?_⟩
  obtain ⟨b, hb, -⟩ := Option.map_eq_some_iff.1 hshown
  exact Option.isSome_iff_exists.2 ⟨b, hb⟩

/-- The lines of a description stand in strictly ascending order of interface and method. Two of
them have the same dotted name exactly if the later interface goes on behind the earlier one over a
dot, at the cost of the method, and an earlier dotted name is the lesser one by its bytes unless the
later interface undercuts the earlier one. So if no interface of the registry goes on behind another
one with a dot or a character below the dot, all dotted names are distinct and ascend. -/
theorem reachable_dotted_names (hr : r.Reachable) :
    (r.describe.Pairwise fun d e => d.subject.Before e.subject ∧
      (d.name = e.name ↔ d.subject.Overlaps e.subject) ∧
      (¬ e.subject.Undercuts d.subject → Text.bytes d.name < Text.bytes e.name)) ∧
    ((∀ i ∈ r.interfaceNames, ∀ j ∈ r.interfaceNames, ¬ RunsOn i j) →
      (r.describe.map (·.name)).Nodup ∧
        (r.describe.map fun d => Text.bytes d.name).Pairwise (· < ·)) := by
  have hkept : r.Kept := hr.kept
  have hlines : r.describe.Pairwise fun d e => d.subject.Before e.subject ∧
      (d.name = e.name ↔ d.subject.Overlaps e.subject) ∧
      (¬ e.subject.Undercuts d.subject → Text.bytes d.name < Text.bytes e.name) := by
    refine hkept.describe_ascending.imp_of_mem fun {d e} hd he hlt => ?_
    rw [hkept.name_of_mem_describe hd, hkept.name_of_mem_describe he]
    exact ⟨hlt, hlt.text_eq_iff, fun hcut => Text.bytes_lt_iff.2 (hlt.text_lt hcut)⟩
  refine ⟨hlines, fun hapart => ?_⟩
  have hnames : (r.describe.map fun d => Text.bytes d.name).Pairwise (· < ·) :=
    List.pairwise_map.2 (hlines.imp_of_mem fun {d e} hd he h => h.2.2 fun hcut =>
      hapart _ (hkept.interface_of_mem_describe hd) _ (hkept.interface_of_mem_describe he)
        hcut.runsOn)
  refine ⟨?_, hnames⟩
  refine List.pairwise_map.2 ((List.pairwise_map.1 hnames).imp fun hlt hname => ?_)
  rw [hname] at hlt
  exact List.lt_irrefl _ hlt

/-- Three bindings whose names have dots and a character below the dot in their parts. -/
def dottedChanges : List (Change Unit) :=
  [.register ⟨"a", "b.c"⟩ (.getter (.typed .bool) (pure true)),
    .register ⟨"a.b", "c"⟩ (.getter (.typed .bool) (pure true)),
    .register ⟨"a!", "x"⟩ (.getter (.typed .bool) (pure true))]

/-- Two lines share their dotted name and the line between them has a lesser one. -/
theorem shared_and_lesser_names : (after [] dottedChanges).Reachable ∧
    (after [] dottedChanges).describe.map (·.name) = ["a.b.c", "a!.x", "a.b.c"] ∧
    ¬ ((after [] dottedChanges).describe.map (·.name)).Nodup ∧
    ¬ ((after [] dottedChanges).describe.map fun d => Text.bytes d.name).Pairwise (· < ·) := by
  have hr : (after [] dottedChanges).Reachable := reachable_after [] dottedChanges
  have hnames : (after [] dottedChanges).describe.map (·.name) = ["a.b.c", "a!.x", "a.b.c"] := by
    rw [hr.kept.describe_eq]
    rfl
  refine ⟨hr, hnames, ?_, fun hascend => ?_⟩
  · rw [hnames]
    decide
  · have hlt : ((after [] dottedChanges).describe.map (·.name)).Pairwise (· < ·) :=
      List.pairwise_map.2 ((List.pairwise_map.1 hascend).imp Text.bytes_lt_iff.1)
    rw [hnames] at hlt
    revert hlt
    decide

/-- Three bindings whose interfaces begin alike. -/
def standChanges : List (Change Unit) :=
  [.register ⟨"Stand2", "all"⟩ (.getter (.typed .bool) (pure true)),
    .register ⟨"Stand", "open"⟩ (.getter (.typed .bool) (pure true)),
    .register ⟨"Stand", "all.day"⟩ (.getter (.typed .bool) (pure true))]

/-- A digit is no character below the dot, and dots in methods are no harm. -/
theorem stand_names_ascend :
    (∀ i ∈ (after [] standChanges).interfaceNames, ∀ j ∈ (after [] standChanges).interfaceNames,
      ¬ RunsOn i j) ∧
    (after [] standChanges).describe.map (·.name) = ["Stand.all.day", "Stand.open", "Stand2.all"] ∧
    ((after [] standChanges).describe.map fun d => Text.bytes d.name).Pairwise (· < ·) := by
  have hr : (after [] standChanges).Reachable := reachable_after [] standChanges
  have hapart : ∀ i ∈ (after [] standChanges).interfaceNames,
      ∀ j ∈ (after [] standChanges).interfaceNames, ¬ RunsOn i j := by
    decide
  refine ⟨hapart, ?_, ((reachable_dotted_names hr).2 hapart).2⟩
  rw [hr.kept.describe_eq]
  rfl

end Registry

end BindingRegistry
