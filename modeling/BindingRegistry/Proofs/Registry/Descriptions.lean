import BindingRegistry.Proofs.Registry.Flat
import BindingRegistry.Registry.Describe

/-!
Descriptions as a canonical form. The lines of a description stand in strictly
ascending order of interfaces and methods, one for each binding, and it does not
matter in which order the bindings are listed before they are sorted. So a
description depends on the names, kinds and signatures of the bindings alone,
and two registries with the same ones are described alike, whatever each has
gone through.
-/
namespace BindingRegistry

variable {σ τ : Type}

namespace QualifiedName

variable {n m k : QualifiedName}

theorem Before.trans (h : n.Before m) (h' : m.Before k) : n.Before k := by
  rcases h with h | ⟨h, hlt⟩
  · rcases h' with h' | ⟨h', -⟩
    · exact .inl (String.lt_trans h h')
    · exact .inl (h' ▸ h)
  · rcases h' with h' | ⟨h', hlt'⟩
    · exact .inl (h ▸ h')
    · exact .inr ⟨h.trans h', String.lt_trans hlt hlt'⟩

theorem Before.asymm (h : n.Before m) : ¬ m.Before n := fun h' => (h.trans h').ne rfl

theorem before_or_eq_or_before (n m : QualifiedName) : n.Before m ∨ n = m ∨ m.Before n := by
  rcases Std.lt_trichotomy n.interface m.interface with h | h | h
  · exact .inl (.inl h)
  · rcases Std.lt_trichotomy n.method m.method with h' | h' | h'
    · exact .inl (.inr ⟨h, h'⟩)
    · exact .inr (.inl (QualifiedName.ext h h'))
    · exact .inr (.inr (.inr ⟨h.symm, h'⟩))
  · exact .inr (.inr (.inl h))

end QualifiedName

namespace Descriptor

variable {d e f : Descriptor}

def subject (d : Descriptor) : QualifiedName := ⟨d.interface, d.method⟩

theorem notAfter_iff : d.notAfter e = true ↔ d.subject.Before e.subject ∨ d.subject = e.subject := by
  simp only [notAfter, Bool.or_eq_true, Bool.and_eq_true, decide_eq_true_eq, Std.le_iff_lt_or_eq,
    QualifiedName.Before, QualifiedName.ext_iff, subject, and_or_left, or_assoc]

theorem notAfter_trans (h : d.notAfter e = true) (h' : e.notAfter f = true) :
    d.notAfter f = true := by
  rw [notAfter_iff] at *
  rcases h with h | h
  · exact .inl (h'.elim h.trans fun he => he ▸ h)
  · rwa [h]

theorem notAfter_total (d e : Descriptor) : (d.notAfter e || e.notAfter d) = true := by
  rw [Bool.or_eq_true, notAfter_iff, notAfter_iff]
  rcases QualifiedName.before_or_eq_or_before d.subject e.subject with h | h | h
  · exact .inl (.inl h)
  · exact .inl (.inr h)
  · exact .inr (.inl h)

/-- The order tells lines apart by their names. -/
theorem subject_eq_of_notAfter (h : d.notAfter e = true) (h' : e.notAfter d = true) :
    d.subject = e.subject := by
  rcases notAfter_iff.1 h with hlt | heq
  · exact (notAfter_iff.1 h').elim (fun hlt' => absurd hlt' hlt.asymm) Eq.symm
  · exact heq

end Descriptor

/-- What a description tells of a binding besides its name. -/
def Binding.shown (b : Binding σ) : Kind × String := (b.kind, b.signature)

namespace Registry

variable {r : Registry σ} {r' : Registry τ}

/-- A binding is known by its name. -/
theorem Kept.eq_of_name_eq (h : r.Kept) {b b' : Binding σ} (hb : b ∈ r.bindings)
    (hb' : b' ∈ r.bindings) (hname : b.name = b'.name) : b = b' := by
  have hfound : r.lookup b.name = some b := h.lookup_eq_some_iff.2 ⟨hb, rfl⟩
  have hfound' : r.lookup b.name = some b' := h.lookup_eq_some_iff.2 ⟨hb', hname.symm⟩
  exact Option.some.inj (hfound.symm.trans hfound')

theorem Kept.subjects_ascending (h : r.Kept) :
    (r.bindings.map Binding.descriptor).Pairwise fun d e => d.subject.Before e.subject :=
  List.pairwise_map.2 (List.pairwise_map.1 h.selectAll_ascending)

/-- In whatever order the bindings come, their lines are sorted into the order of the registry. -/
theorem Kept.descriptors_of_perm (h : r.Kept) {bs : List (Binding σ)} (hbs : bs.Perm r.bindings) :
    descriptors bs = r.bindings.map Binding.descriptor := by
  have hperm : (descriptors bs).Perm (r.bindings.map Binding.descriptor) :=
    (List.mergeSort_perm _ _).trans (hbs.map _)
  have hsorted : (descriptors bs).Pairwise fun d e => d.notAfter e = true :=
    @List.pairwise_mergeSort _ Descriptor.notAfter (fun _ _ _ => Descriptor.notAfter_trans)
      Descriptor.notAfter_total _
  have hlines : (r.bindings.map Binding.descriptor).Pairwise fun d e => d.notAfter e = true :=
    h.subjects_ascending.imp fun hlt => Descriptor.notAfter_iff.2 (.inl hlt)
  refine hperm.eq_of_pairwise (fun d e hd he hde hed => ?_) hsorted hlines
  -- The order tells lines apart by their names only, and no two bindings share one.
  obtain ⟨b, hb, rfl⟩ := List.mem_map.1 (hperm.mem_iff.1 hd)
  obtain ⟨b', hb', rfl⟩ := List.mem_map.1 he
  have hname : b.name = b'.name := Descriptor.subject_eq_of_notAfter hde hed
  rw [h.eq_of_name_eq hb hb' hname]

theorem Kept.describe_eq (h : r.Kept) : r.describe = r.bindings.map Binding.descriptor :=
  h.descriptors_of_perm (.refl _)

theorem Kept.describe_ascending (h : r.Kept) :
    r.describe.Pairwise fun d e => d.subject.Before e.subject :=
  h.describe_eq ▸ h.subjects_ascending

/-- Of the bindings listed, the one found under a name is the only one with the name. -/
theorem Kept.filter_bindings (h : r.Kept) (n : QualifiedName) :
    r.bindings.filter (fun b => b.name = n) = (r.lookup n).toList := by
  cases hn : r.lookup n with
  | none =>
    refine List.filter_eq_nil_iff.2 fun b hb hname => ?_
    have hfound := h.lookup_eq_some_iff.2 ⟨hb, of_decide_eq_true hname⟩
    rw [hn] at hfound
    cases hfound
  | some b =>
    have hnodup : r.bindings.Nodup := List.Nodup.of_map _ h.nodup_selectAll
    refine ((List.perm_ext_iff_of_nodup (hnodup.filter _) (List.nodup_singleton b)).2
      fun b' => ?_).eq_singleton
    rw [List.mem_filter, decide_eq_true_eq, ← h.lookup_eq_some_iff, hn, Option.some.injEq,
      List.mem_singleton, eq_comm]

/-- Of the lines of a description, that of the binding under a name is the only one about it. -/
theorem Kept.filter_describe (h : r.Kept) (n : QualifiedName) :
    r.describe.filter (fun d => d.subject = n) =
      ((r.lookup n).map fun b =>
        Descriptor.mk n.text n.interface n.method b.kind b.signature).toList := by
  have hsubject : (fun d : Descriptor => decide (d.subject = n)) ∘ Binding.descriptor =
      fun b : Binding σ => decide (b.name = n) := rfl
  rw [h.describe_eq, List.filter_map, hsubject, h.filter_bindings]
  cases hn : r.lookup n with
  | none => rfl
  | some b =>
    obtain rfl := h.named n b hn
    rfl

/-- A line is listed if it says of the binding under its name what is so. -/
theorem Kept.mem_describe (h : r.Kept) {d : Descriptor} : d ∈ r.describe ↔
    d.name = d.subject.text ∧
      (r.lookup d.subject).map Binding.shown = some (d.kind, d.signature) := by
  have hmem : d ∈ r.describe ↔ d ∈ r.describe.filter fun e => e.subject = d.subject := by
    simp [List.mem_filter]
  rw [hmem, h.filter_describe]
  cases r.lookup d.subject with
  | none => simp
  | some b =>
    cases d
    simp [Binding.shown, Descriptor.subject, eq_comm]

/-- A description tells neither more nor less than the names, kinds and signatures. -/
theorem Kept.describe_eq_iff (h : r.Kept) (h' : r'.Kept) : r.describe = r'.describe ↔
    ∀ n, (r.lookup n).map Binding.shown = (r'.lookup n).map Binding.shown := by
  constructor
  · intro hsame n
    refine Option.ext fun s => ?_
    have hline := h.mem_describe (d := ⟨n.text, n.interface, n.method, s.1, s.2⟩)
    have hline' := h'.mem_describe (d := ⟨n.text, n.interface, n.method, s.1, s.2⟩)
    rw [hsame] at hline
    simpa [Descriptor.subject] using hline.symm.trans hline'
  · intro hsame
    have hnodup {l : List Descriptor} (hl : l.Pairwise fun d e => d.subject.Before e.subject) :
        l.Nodup := hl.imp fun hlt heq => hlt.ne (congrArg Descriptor.subject heq)
    have hperm : r.describe.Perm r'.describe :=
      (List.perm_ext_iff_of_nodup (hnodup h.describe_ascending)
        (hnodup h'.describe_ascending)).2 fun d => by
          rw [h.mem_describe, h'.mem_describe, hsame]
    exact hperm.eq_of_pairwise (fun _ _ _ _ hlt hgt => absurd hgt hlt.asymm)
      h.describe_ascending h'.describe_ascending

/-- A description stands in strictly ascending order of interface and method. For every registered
name it has one line, with the binding's own kind and its signature as it is, and for no other. The
order in which the bindings are listed does not matter. Two registries, whatever each has gone
through, are described alike exactly if the same names are registered in them with the same kinds
and signatures. -/
theorem reachable_descriptions_canonical (hr : r.Reachable) (hr' : r'.Reachable) :
    (r.describe.Pairwise fun d e => d.subject.Before e.subject) ∧
      (∀ n, r.describe.filter (fun d => d.subject = n) = ((r.lookup n).map fun b =>
        Descriptor.mk n.text n.interface n.method b.kind b.signature).toList) ∧
      (∀ bs, bs.Perm r.bindings → descriptors bs = r.describe) ∧
      (r.describe = r'.describe ↔
        ∀ n, (r.lookup n).map Binding.shown = (r'.lookup n).map Binding.shown) := by
  have hkept : r.Kept := hr.kept
  refine ⟨hkept.describe_ascending, hkept.filter_describe, fun bs hbs => ?_,
    hkept.describe_eq_iff hr'.kept⟩
  rw [hkept.descriptors_of_perm hbs, hkept.describe_eq]

def weigh : Operation Unit where
  params := [.i64, .string]
  returns := .typed .i64
  run args := pure args.1

/-- A scale is registered before its bell, and all labels are given. -/
def scaleChanges : List (Change Unit) :=
  [.register ⟨"Scale", "weigh"⟩ (.function weigh), .declareGlobal ⟨.string, "net"⟩,
    .register ⟨"Bell", "ring"⟩ (.getter (.typed .bool) (pure true))]

/-- The bell comes first, something else is in the place of the scale and something else is removed,
and the scale has a label and a filter of its own. -/
def otherScaleChanges : List (Change Unit) :=
  [.register ⟨"Bell", "ring"⟩ (.getter (.typed .i64) (pure (.wrap .i64 1))),
    .register ⟨"Scale", "weigh"⟩ (.getter (.typed .bool) (pure false)),
    .register ⟨"Scale", "tare"⟩ (.function weigh), .remove ⟨"Scale", "tare"⟩,
    .register ⟨"Scale", "weigh"⟩ (.function weigh),
    .adjust ⟨"Scale", "weigh"⟩ (.inject ⟨.string, "gross"⟩),
    .adjust ⟨"Scale", "weigh"⟩ (.addFilter fun _ is => pure (true, is))]

/-- Both ways lead to the same description, the bell before the scale. -/
theorem scales_described_alike :
    (after [] scaleChanges).describe = (after [] otherScaleChanges).describe ∧
      descriptors (after [] scaleChanges).bindings.reverse = (after [] scaleChanges).describe ∧
      (after [] scaleChanges).describe.filter (fun d => d.subject = ⟨"Scale", "weigh"⟩) =
        [⟨"Scale.weigh", "Scale", "weigh", .function, "i"⟩] := by
  obtain ⟨-, hline, horder, hsame⟩ := reachable_descriptions_canonical
    (reachable_after [] scaleChanges) (reachable_after [] otherScaleChanges)
  refine ⟨hsame.2 fun n => ?_, horder _ (List.reverse_perm _), hline ⟨"Scale", "weigh"⟩⟩
  by_cases hscale : n = ⟨"Scale", "weigh"⟩
  · subst hscale
    rfl
  by_cases hbell : n = ⟨"Bell", "ring"⟩
  · subst hbell
    rfl
  by_cases htare : n = ⟨"Scale", "tare"⟩
  · subst htare
    rfl
  have hnone : (Builder.registryOf [] : Logged (Registry Unit)).value.lookup n = none := rfl
  simp [after, scaleChanges, otherScaleChanges, apply, lookup_register, lookup_declareGlobal,
    lookup_update, lookup_remove, hscale, hbell, htare, hnone]

end Registry

end BindingRegistry
