import BindingRegistry.Proofs.Invocation.Course
import BindingRegistry.Proofs.Registry.History

/-!
Marks and defaults belong together. A parameter is marked exactly when it takes
the name of the binding or the binding has a default of exactly its type, after
whatever changes. So every marked parameter of a call finds a value unless a
filter took it away, and only a type that refuses it can still end the call.
-/
namespace BindingRegistry

variable {σ : Type}

/-- A parameter is marked if and only if it takes the name of the binding or has a default. -/
def Binding.Marked (b : Binding σ) : Prop :=
  ∀ (p : Nat) (t : Ty), b.params[p]? = some t →
    (b.marks[p]? = some true ↔ t = .name ∨ b.singletons.contains t = true)

theorem marked_ofCallable (n : QualifiedName) (c : Callable σ) :
    (Binding.ofCallable n c).Marked := by
  intro p t hp
  have hm : (Binding.ofCallable n c).marks[p]? = some (decide (t = .name)) := by
    rw [Binding.params] at hp
    simp only [Binding.ofCallable, List.getElem?_map] at hp ⊢
    rw [hp]
    rfl
  have hs : (Binding.ofCallable n c).singletons.contains t = false := rfl
  simp [hm, hs]

theorem contains_insertEntry (is : Injections) (i : Injected) (t : Ty) :
    (is.insertEntry i).contains t = true ↔ i.1 = t ∨ is.contains t = true := by
  rw [TypeMap.contains, TypeMap.get?_insertEntry]
  by_cases h : i.1 = t
  · simp [h]
  · simp [h, TypeMap.contains]

/-- A default marks the parameters of its type and no others. -/
theorem marked_inject {b : Binding σ} (i : Injected) (h : b.Marked) : (b.inject i).Marked := by
  intro p t hp
  change b.callable.params[p]? = some t at hp
  have hlt : p < b.marks.length := by
    rw [b.marks_length]
    exact (List.getElem?_eq_some_iff.1 hp).1
  have hm := List.getElem?_eq_getElem hlt
  have hi : (b.inject i).marks[p]? = some (b.marks[p] || decide (t = i.1)) := by
    simp only [Binding.inject, List.getElem?_zipWith, hp, hm]
  have hb : b.marks[p] = true ↔ t = .name ∨ b.singletons.contains t = true := by
    rw [← h p t hp, hm, Option.some.injEq]
  have hs : (b.inject i).singletons.contains t = true ↔
      i.1 = t ∨ b.singletons.contains t = true := contains_insertEntry b.singletons i t
  rw [hi, hs, Option.some.injEq, Bool.or_eq_true, hb, decide_eq_true_iff, @eq_comm _ i.1 t,
    or_assoc, @or_comm (t = i.1)]

theorem marked_adjustment {b : Binding σ} (a : Adjustment σ) (h : b.Marked) :
    (a.apply b).Marked := by
  cases a with
  | inject i => exact marked_inject i h
  | addFilter f => exact h
  | clearFilters => exact h

theorem Registry.Reachable.marked {r : Registry σ} (hr : r.Reachable) :
    r.Throughout Binding.Marked :=
  hr.throughout marked_ofCallable fun _ a => marked_adjustment a

/-- Whether parameters of a type are injected into the binding. -/
def Binding.injects (b : Binding σ) (t : Ty) : Bool := t = .name || b.singletons.contains t

/-- The marks can be computed from the types alone. -/
theorem Binding.Marked.marks {b : Binding σ} (h : b.Marked) : b.marks = b.params.map b.injects := by
  refine List.ext_getElem? fun p => ?_
  rw [List.getElem?_map]
  cases hp : b.params[p]? with
  | none =>
    have hlen : b.marks.length ≤ p := by
      rw [b.marks_length]
      exact List.getElem?_eq_none_iff.1 hp
    rw [List.getElem?_eq_none hlen]
    rfl
  | some t =>
    have hlt : p < b.marks.length := by
      rw [b.marks_length]
      exact (List.getElem?_eq_some_iff.1 hp).1
    have hmark := h p t hp
    rw [List.getElem?_eq_getElem hlt, Option.some.injEq] at hmark
    rw [List.getElem?_eq_getElem hlt, Option.map_some, Option.some.injEq, Bool.eq_iff_iff, hmark]
    simp [Binding.injects]

theorem Binding.injectedCount_le (b : Binding σ) : b.injectedCount ≤ b.params.length :=
  le_of_le_of_eq List.count_le_length b.marks_length

/-- Every type in the first set is in the second. -/
def Covers (is is' : Injections) : Prop :=
  ∀ t, is.contains t = true → is'.contains t = true

/-- No filter that runs, from these injections and this world, takes a type out of the set. -/
def Keeping (o : Outline) : List (Filter σ) → Injections → σ → Prop
  | [], _, _ => True
  | f :: fs, is, s => ∀ passed is₁ s₁, (f o is).result s = ((passed, is₁), s₁) →
    Covers is is₁ ∧ (passed = true → Keeping o fs is₁ s₁)

theorem ChainRun.covers {o : Outline} {fs : List (Filter σ)} {passed : Bool}
    {is is' : Injections} {s s' : σ} (h : ChainRun o fs is s passed is' s')
    (hk : Keeping o fs is s) : Covers is is' := by
  induction h with
  | done is s => exact fun t ht => ht
  | stop fs hf => exact (hk _ _ _ hf).1
  | next hf _ ih =>
    obtain ⟨hcovers, hrest⟩ := hk _ _ _ hf
    exact fun t ht => ih (hrest rfl) t (hcovers t ht)

/-- A marked parameter finds a value among the injections that a call starts with. -/
theorem Binding.Marked.contains_merged {b : Binding σ} (h : b.Marked) (call : Injections)
    {p : Nat} {t : Ty} (hp : b.slots[p]? = some (t, true)) :
    (b.merged call).contains t = true := by
  obtain ⟨hparam, hmark⟩ := Binding.slots_getElem? hp
  rw [TypeMap.contains, Binding.get?_merged]
  rcases (h p t hparam).1 hmark with rfl | ht
  · simp
  · by_cases hn : Ty.name = t
    · simp [hn]
    · rw [dif_neg hn, Option.isSome_or, Bool.or_eq_true]
      exact .inr ht

/-- Whether an error is one that an operation itself can end in. -/
def InvokeError.OfRun : InvokeError → Prop
  | .callable _ | .unwritable _ => True
  | _ => False

theorem Returned.ofRun_of_write {r : Returned} {a : r.Denote} {e : InvokeError}
    (h : r.write a = .error e) : e.OfRun := by
  cases r with
  | typed t => cases h
  | structured =>
    cases a with
    | ok v => cases h
    | error reason => cases h; trivial

/-- Results that are written in order fail with the error of one that cannot be. -/
theorem ofRun_of_bind {x : Except InvokeError α} {f : α → Except InvokeError β} {e : InvokeError}
    (hx : ∀ e, x = .error e → e.OfRun) (hf : ∀ a e, f a = .error e → e.OfRun)
    (h : (x >>= f) = .error e) : e.OfRun := by
  cases x with
  | ok a => exact hf a e h
  | error e' =>
    obtain rfl : e' = e := by injection h
    exact hx e' rfl

theorem ofRun_of_intoValues {r : Returns} {a : r.Denote} {e : InvokeError}
    (h : r.intoValues a = .error e) : e.OfRun := by
  have hw {r : Returned} {a : r.Denote} : ∀ e, r.write a = .error e → e.OfRun :=
    fun _ => Returned.ofRun_of_write
  induction r with
  | nothing => cases h
  | one r => exact ofRun_of_bind hw (fun _ _ h => by cases h) h
  | pair r₁ r₂ =>
    exact ofRun_of_bind hw (fun _ _ h => ofRun_of_bind hw (fun _ _ h => by cases h) h) h
  | triple r₁ r₂ r₃ =>
    exact ofRun_of_bind hw (fun _ _ h => ofRun_of_bind hw (fun _ _ h =>
      ofRun_of_bind hw (fun _ _ h => by cases h) h) h) h
  | quad r₁ r₂ r₃ r₄ =>
    exact ofRun_of_bind hw (fun _ _ h => ofRun_of_bind hw (fun _ _ h =>
      ofRun_of_bind hw (fun _ _ h => ofRun_of_bind hw (fun _ _ h => by cases h) h) h) h) h
  | result r ih =>
    cases a with
    | ok a => exact ih h
    | error cause => cases h; trivial

/-- The filters pass and leave a value at position `p` that its type does not take. -/
def Binding.Refuses (b : Binding σ) (call : Injections) (s : σ) (p : Nat) (t : Ty) : Prop :=
  b.params[p]? = some t ∧ b.marks[p]? = some true ∧
    ∃ is s₁ a, ChainRun b.outline b.filters (b.merged call) s true is s₁ ∧
      is.get? t = some a ∧ t.accept a = none

section

variable {b : Binding σ} {op : Operation σ} {cs : Converters} {call : Injections}
  {args : List Value} {s s₁ : σ}

/-- A call of an operation that ends in an error was refused, or the operation itself failed. -/
theorem Follows.error {course : Course op} {e : InvokeError}
    (h : (course.ending s₁).1 = .error e) : course = .refused e ∨ e.OfRun := by
  cases course with
  | rejected => cases h
  | refused e' =>
    obtain rfl : e' = e := by simpa [Course.ending] using h
    exact .inl rfl
  | ran as =>
    cases hv : op.returns.intoValues ((op.run as).result s₁).1 with
    | ok vs => simp [Course.ending, hv, firstOf] at h
    | error e' =>
      obtain rfl : e' = e := by simpa [Course.ending, hv, firstOf] using h
      exact .inr (ofRun_of_intoValues hv)

/-- Where marks and defaults agree and no filter takes a value away, a call is refused for a
number of arguments, an argument that cannot be converted or an injected value that its type does
not take. -/
theorem Follows.refused_of_marked {e : InvokeError} (hop : b.callable.operation? = some op)
    (h : Follows b op cs call args s (.refused e) s₁) (hm : b.Marked)
    (hk : Keeping b.outline b.filters (b.merged call) s) :
    e = b.countError args.length ∨ (∃ p t cause, e = .conversion p t cause) ∨
      ∃ p t, e = .injectionMismatch p t t ∧ b.Refuses call s p t := by
  obtain ⟨is, hc, hrefusal⟩ := h.refusal hop
  cases hrefusal with
  | count => exact .inl rfl
  | missing hp hnone =>
    have hleft := hc.covers hk _ (hm.contains_merged call hp)
    rw [TypeMap.contains, hnone] at hleft
    cases hleft
  | conversion cause _ => exact .inr (.inl ⟨_, _, cause, rfl⟩)
  | @mismatch p t a hp hget hnone =>
    obtain ⟨hparam, hmark⟩ := Binding.slots_getElem? hp
    exact .inr (.inr ⟨p, t, rfl, hparam, hmark, is, s₁, a, hc, hget, hnone⟩)

end

theorem Callable.exists_operation {c : Callable σ} (h : c.kind = .function ∨ c.kind = .method) :
    ∃ op, c.operation? = some op := by
  cases c with
  | function op | method op => exact ⟨op, rfl⟩
  | getter | handler | proxy | custom => simp [Callable.kind] at h

/-- In every registry that can be reached, a parameter of a binding is marked exactly when it takes
the binding's name or has a default of its type. Calls of its functions and methods whose filters
take no value away find all injected values, and only a type that does not take the one it finds
ends such a call. -/
theorem reachable_call_finds_injections {r : Registry σ} (hr : r.Reachable) {n : QualifiedName}
    {b : Binding σ} (hb : r.lookup n = some b) :
    b.Marked ∧ b.injectedCount ≤ b.params.length ∧
    (b.kind = .function ∨ b.kind = .method → ∀ cs call args s,
      Keeping b.outline b.filters (b.merged call) s →
        ∀ e, ((invoke b cs call args).result s).1 = .error e →
          (∀ whom p t, e ≠ .missingInjection whom p t) ∧
          ∀ p t found, e = .injectionMismatch p t found → found = t ∧ b.Refuses call s p t) := by
  have hm : b.Marked := hr.marked n b hb
  refine ⟨hm, b.injectedCount_le, fun hkind cs call args s hk e he => ?_⟩
  obtain ⟨op, hop⟩ := Callable.exists_operation hkind
  obtain ⟨course, s₁, hc⟩ := exists_follows hop cs call args s
  rw [hc.result hop] at he
  rcases Follows.error he with rfl | hrun
  · rcases hc.refused_of_marked hop hm hk with rfl | ⟨p, t, cause, rfl⟩ | ⟨p, t, rfl, hp⟩
    · exact ⟨fun _ _ _ h => (by cases h), fun _ _ _ h => (by cases h)⟩
    · exact ⟨fun _ _ _ h => (by cases h), fun _ _ _ h => (by cases h)⟩
    · refine ⟨fun _ _ _ h => (by cases h), fun p' t' found h => ?_⟩
      cases h
      exact ⟨rfl, hp⟩
  · refine ⟨fun _ _ _ h => ?_, fun _ _ _ h => ?_⟩
    · subst h
      exact hrun.elim
    · subst h
      exact hrun.elim

/-- Gives back its second argument; the first is a number that has to be even. -/
def picking : Operation Unit where
  params := [.host .picky, .i64]
  returns := .typed .i64
  run as := pure as.2.1

/-- A registry with an odd number for every such parameter, and a filter on its only function. -/
def pickingRegistry : Registry Unit :=
  ((Builder.registryOf [.global ⟨.host .picky, .wrap .i64 3⟩]).value.apply
    (.register ⟨"Tools", "pick"⟩ (.function picking))).apply
      (.adjust ⟨"Tools", "pick"⟩ (.addFilter (.counting id)))

/-- The first parameter is marked and refuses its value. -/
theorem picking_refused : ∃ b, pickingRegistry.lookup ⟨"Tools", "pick"⟩ = some b ∧ b.Marked ∧
    ((invoke b .empty .empty [.integer 4]).result ()).1 =
      .error (.injectionMismatch 0 (.host .picky) (.host .picky)) ∧
    b.Refuses .empty () 0 (.host .picky) := by
  have hr : pickingRegistry.Reachable := .changed _ (.changed _ (.built _))
  obtain ⟨b, hb⟩ : ∃ b, pickingRegistry.lookup ⟨"Tools", "pick"⟩ = some b := ⟨_, rfl⟩
  have he : ((invoke b .empty .empty [.integer 4]).result ()).1 =
      .error (.injectionMismatch 0 (.host .picky) (.host .picky)) := by
    cases hb
    rfl
  have hk : Keeping b.outline b.filters (b.merged .empty) () := by
    cases hb
    intro passed is₁ s₁ h
    cases h
    exact ⟨fun _ ht => ht, fun _ => trivial⟩
  have hkind : b.kind = .function ∨ b.kind = .method := by
    cases hb
    exact .inl rfl
  obtain ⟨hm, -, hcall⟩ := reachable_call_finds_injections hr hb
  have hrefuses := (hcall hkind .empty .empty [.integer 4] () hk _ he).2 _ _ _ rfl
  exact ⟨b, hb, hm, he, hrefuses.2⟩

end BindingRegistry
