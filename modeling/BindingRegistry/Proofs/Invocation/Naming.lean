import BindingRegistry.Proofs.Invocation.Arity
import BindingRegistry.Proofs.Invocation.Gate
import BindingRegistry.Proofs.Registry.Flat

/-!
Whom the errors of a call name. A lookup and an assembly know the name that was
called and put it into their errors; conversions, failures of the callable and
of the far side name nobody. Only two callables name someone else: a handler
that misses its context, and a callable with conventions of its own that
returns such an error itself.
-/
namespace BindingRegistry

variable {σ : Type}

namespace InvokeError

/-- Whom the error names, if it is one of those that name a binding. -/
def named? : InvokeError → Option Culprit
  | notFound n => some (.binding n)
  | missingInjection whom _ _ => some whom
  | argumentCount whom _ _ _ => some whom
  | _ => none

/-- Nobody but the binding `n` is named. -/
def Names (e : InvokeError) (n : QualifiedName) : Prop :=
  ∀ whom, e.named? = some whom → whom = .binding n

variable {e : InvokeError} {n : QualifiedName}

theorem names_of_unnamed (h : e.named? = none) : e.Names n := by
  intro whom hwhom
  rw [h] at hwhom
  cases hwhom

theorem names_of_named (h : e.named? = some (.binding n)) : e.Names n := by
  intro whom hwhom
  exact Option.some.inj (hwhom.symm.trans h)

theorem OfRun.unnamed (h : e.OfRun) : e.named? = none := by
  cases e with
  | callable | unwritable => rfl
  | _ => exact h.elim

end InvokeError

section

variable {cs : Converters} {is : Injections} {slots : List Slot} {s : σ} {e : InvokeError}

theorem Slot.Faults.unnamed {t : Ty} {position : Nat} {slot : Slot}
    (h : slot.Faults cs t position e) : e.named? = none := by
  cases h with
  | supplied => rfl
  | injected => rfl

theorem TransportError.unnamed (e : TransportError) : e.toInvokeError.named? = none := by
  cases e with
  | failed => rfl
  | relayed => rfl

/-- An operation that has a slot for each parameter never asks for another one. -/
theorem Operation.unnamed_of_call {op : Operation σ} (hlen : slots.length = op.params.length)
    (h : ((op.call cs slots).result s).1 = .error e) : e.named? = none := by
  rcases fits_or_firstFault cs 0 hlen with ⟨as, hfits⟩ | ⟨p, e', hfault⟩
  · rw [Operation.call_ok (hfits.takeAll hlen 0)] at h
    exact (ofRun_of_intoValues h).unnamed
  · rw [Operation.call_error hfault.takeAll] at h
    obtain rfl : e' = e := by simpa using h
    obtain ⟨t, slot, -, -, hslot⟩ := hfault.fault
    exact hslot.unnamed

/-- The errors of a stand-in name nobody on the near side. -/
theorem Proxy.unnamed_of_call {p : Proxy σ} (hlen : slots.length = 1)
    (h : ((p.call cs slots is).result s).1 = .error e) : e.named? = none := by
  obtain ⟨slot, rfl⟩ := List.length_eq_one_iff.1 hlen
  simp only [Proxy.call, ArgVector.take, Action.result_bind, Action.result_ofLogged,
    Logged.value_bind] at h
  rcases slot.yields_or_faults cs (.list .value) 0 with ⟨args, hargs⟩ | ⟨e', hfault⟩
  · simp only [hargs.content, Logged.value_pure, Action.result_bind, Action.result_log] at h
    split at h
    · next ht =>
      obtain rfl := Except.error.inj h
      exact TransportError.unnamed _
    · cases h
  · simp only [hfault.content, Logged.value_pure, Action.result_pure] at h
    obtain rfl : e' = e := Except.error.inj h
    exact hfault.unnamed

end

namespace Binding

variable {b : Binding σ} {cs : Converters} {is : Injections} {args : List Value} {s : σ}
  {e : InvokeError}

/-- What the callable is given for the arguments of a call. -/
def prepared (b : Binding σ) (is : Injections) (args : List Value) :
    Except InvokeError (List Slot) :=
  if b.callable.takesArguments then b.assemble is (b.callable.bundle args) else .ok []

theorem prepare_eq_prepared (b : Binding σ) (is : Injections) (args : List Value) (s : σ) :
    (b.prepare is args).result s = (b.prepared is args, s) := by
  rw [prepare, prepared]
  split
  · rfl
  · cases args with
    | nil => rfl
    | cons v args => rfl

/-- What is carried out ends in the error of the assembly or in that of the callable. -/
theorem carryOut_error_iff : ((b.carryOut cs is args).result s).1 = .error e ↔
    b.prepared is args = .error e ∨ ∃ slots, b.prepared is args = .ok slots ∧
      ((b.callable.call cs slots is).result s).1 = .error e := by
  simp only [carryOut, Action.result_bind, prepare_eq_prepared]
  cases b.prepared is args with
  | error e' => simp
  | ok slots =>
    simp only [Action.result_bind]
    cases hcall : ((b.callable.call cs slots is).result s).1 with
    | error e' => simp [hcall]
    | ok vs => simp [hcall]

theorem names_of_prepared (h : b.prepared is args = .error e) : e.Names b.name := by
  rw [prepared] at h
  split at h
  · rcases fill_error h with ⟨p, t, -, -, rfl⟩ | rfl
    · exact InvokeError.names_of_named rfl
    · exact InvokeError.names_of_named rfl
  · cases h

theorem prepared_length {slots : List Slot} (hb : b.callable.takesArguments = true)
    (h : b.prepared is args = .ok slots) : slots.length = b.params.length := by
  rw [prepared, if_pos hb] at h
  exact assemble_length h

inductive Misnames (b : Binding σ) (cs : Converters) (is : Injections) (args : List Value) (s : σ) :
    InvokeError → Prop where
  /-- A handler finds no value of its context's type, and does not know what it is bound to. -/
  | handler {context : Ty} {returns : Returns} {run : context.Denote → Action σ returns.Denote} :
    b.callable = .handler context returns run → is.get? context = none →
      Misnames b cs is args s (.missingInjection .handler 0 context)
  /-- A callable with conventions of its own returns the error itself. -/
  | custom {c : Custom σ} {slots : List Slot} {e : InvokeError} :
    b.callable = .custom c → b.assemble is (c.bundle args) = .ok slots →
      ((c.run cs { slots } is).result s).1 = .error e → ¬ e.Names b.name →
        Misnames b cs is args s e

/-- Past assembly only two kinds of callables get a name wrong. -/
theorem misnames_of_call {slots : List Slot} (hp : b.prepared is args = .ok slots)
    (h : ((b.callable.call cs slots is).result s).1 = .error e) (hnot : ¬ e.Names b.name) :
    b.Misnames cs is args s e := by
  have hnamed : e.named? ≠ none := fun hnone => hnot (InvokeError.names_of_unnamed hnone)
  cases hb : b.callable with
  | function op | method op =>
    have hlen : slots.length = op.params.length := by
      rw [prepared_length (by rw [hb]; rfl) hp, params, hb]
      rfl
    rw [hb] at h
    exact absurd (Operation.unnamed_of_call hlen h) hnamed
  | getter returns get =>
    rw [hb] at h
    exact absurd (ofRun_of_intoValues h).unnamed hnamed
  | handler context returns run =>
    rw [hb, Callable.call] at h
    cases hcontext : is.get? context with
    | none =>
      rw [hcontext] at h
      obtain rfl := Except.error.inj h
      exact .handler hb hcontext
    | some a =>
      rw [hcontext] at h
      exact absurd (ofRun_of_intoValues h).unnamed hnamed
  | proxy p =>
    have hlen : slots.length = 1 := by
      rw [prepared_length (by rw [hb]; rfl) hp, params, hb]
      rfl
    rw [hb] at h
    exact absurd (Proxy.unnamed_of_call hlen h) hnamed
  | custom c =>
    rw [hb] at h
    rw [prepared, hb] at hp
    exact .custom hb hp h hnot

/-- Whatever names someone else is one of these errors, and each of these does. -/
theorem carryOut_misnames_iff : ((b.carryOut cs is args).result s).1 = .error e ∧
    ¬ e.Names b.name ↔ b.Misnames cs is args s e := by
  rw [carryOut_error_iff]
  constructor
  · rintro ⟨hp | ⟨slots, hp, h⟩, hnot⟩
    · exact absurd (names_of_prepared hp) hnot
    · exact misnames_of_call hp h hnot
  · intro h
    cases h with
    | @handler context returns run hb hcontext =>
      refine ⟨.inr ⟨[], by rw [prepared, hb]; rfl, ?_⟩, fun hnames => ?_⟩
      · rw [hb, Callable.call, hcontext]
        rfl
      · cases hnames .handler rfl
    | @custom c slots e hb hp h hnot =>
      refine ⟨.inr ⟨slots, ?_, ?_⟩, hnot⟩
      · rw [prepared, hb]
        exact hp
      · rw [hb]
        exact h

theorem invoke_misnames_iff {call : Injections} :
    ((invoke b cs call args).result s).1 = .error e ∧ ¬ e.Names b.name ↔
      ∃ is s₁, ChainRun b.outline b.filters (b.merged call) s true is s₁ ∧
        b.Misnames cs is args s₁ e := by
  obtain ⟨passed, is, s₁, hc⟩ := exists_chainRun b.outline b.filters (b.merged call) s
  -- There is only one run of the filters from here.
  have hunique {is' : Injections} {s₁' : σ}
      (h : ChainRun b.outline b.filters (b.merged call) s true is' s₁') :
      ((true, is'), s₁') = ((passed, is), s₁) := h.result.symm.trans hc.result
  cases passed with
  | false =>
    rw [invoke_rejected cs args hc]
    constructor
    · rintro ⟨he, -⟩
      cases he
    · rintro ⟨is', s₁', h, -⟩
      cases hunique h
  | true =>
    rw [invoke_passed hc, carryOut_misnames_iff]
    constructor
    · intro hmisnames
      exact ⟨is, s₁, hc, hmisnames⟩
    · rintro ⟨is', s₁', h, hmisnames⟩
      cases hunique h
      exact hmisnames

end Binding

namespace Registry

/-- In every registry that can be reached, a call that ends in an error naming someone else than
the name that was called is one of a handler that misses its context, or of a callable with
conventions of its own that returned this error. So functions, methods, getters and proxies name
themselves, and so does a call that finds no binding. -/
theorem reachable_errors_name_binding {r : Registry σ} (hr : r.Reachable) (n : QualifiedName)
    (call : Injections) (args : List Value) (s : σ) :
    (∀ e, ((r.invoke n call args).result s).1 = .error e ∧ ¬ e.Names n ↔
      ∃ b is s₁, r.lookup n = some b ∧
        ChainRun b.outline b.filters (b.merged call) s true is s₁ ∧
        b.Misnames r.converters is args s₁ e) ∧
    ((∀ b, r.lookup n = some b → b.kind ≠ .handler) →
      ∀ e, ((r.invoke n call args).result s).1 = .error e → e.Names n) := by
  have hiff (e : InvokeError) : ((r.invoke n call args).result s).1 = .error e ∧ ¬ e.Names n ↔
      ∃ b is s₁, r.lookup n = some b ∧
        ChainRun b.outline b.filters (b.merged call) s true is s₁ ∧
        b.Misnames r.converters is args s₁ e := by
    cases hb : r.lookup n with
    | none =>
      simp only [invoke, hb, Action.result_pure]
      constructor
      · rintro ⟨he, hnot⟩
        obtain rfl := Except.error.inj he
        exact absurd (InvokeError.names_of_named rfl) hnot
      · rintro ⟨b, -, -, hnone, -⟩
        cases hnone
    | some b =>
      obtain rfl : b.name = n := hr.kept.named n b hb
      simp only [invoke, hb, Binding.invoke_misnames_iff, Option.some.injEq]
      constructor
      · rintro ⟨is, s₁, h⟩
        exact ⟨b, is, s₁, rfl, h⟩
      · rintro ⟨b', is, s₁, rfl, h⟩
        exact ⟨is, s₁, h⟩
  refine ⟨hiff, fun hkind e he => ?_⟩
  by_contra hnot
  obtain ⟨b, is, s₁, hb, -, hmisnames⟩ := (hiff e).1 ⟨he, hnot⟩
  refine hkind b hb ?_
  cases hmisnames with
  | handler hcallable => rw [Binding.kind, hcallable]; rfl
  | custom hcallable => rw [Binding.kind, hcallable]; rfl

def asking : Custom Unit where
  params := []
  signature _ := ""
  bundle := id
  run cs args _ := do
    match ← Action.ofLogged (args.take cs .i64) with
    | .error e => return .error e
    | .ok (a, _) => return .ok [Ty.i64.encode a]

/-- An office with a handler that gives back its request, a function and a callable that asks for
more than it declares. -/
def officeChanges : List (Change Unit) :=
  [.register ⟨"Office", "path"⟩ (.handler (.host .request) (.typed .string) pure),
    .register ⟨"Office", "ring"⟩ (.function ringing),
    .register ⟨"Office", "ask"⟩ (.custom asking)]

/-- Without a request the error names a placeholder in the place of the handler's name. -/
theorem handler_without_context_unnamed :
    (after [] officeChanges).Reachable ∧
    ((after [] officeChanges).invoke ⟨"Office", "path"⟩ .empty []).result () =
      (.error (.missingInjection .handler 0 (.host .request)), ()) ∧
    ¬ (InvokeError.missingInjection .handler 0 (.host .request)).Names ⟨"Office", "path"⟩ := by
  refine ⟨reachable_after [] officeChanges, rfl, fun hnames => ?_⟩
  cases hnames .handler rfl

/-- The function names itself, and a call without a binding the name that was called; the handler
and the callable that asks for too much do not. -/
theorem office_errors :
    ((after [] officeChanges).invoke ⟨"Office", "ring"⟩ .empty []).result () =
      (.error (.argumentCount (.binding ⟨"Office", "ring"⟩) 3 0 0), ()) ∧
    (InvokeError.argumentCount (.binding ⟨"Office", "ring"⟩) 3 0 0).Names ⟨"Office", "ring"⟩ ∧
    (InvokeError.notFound ⟨"Office", "bell"⟩).Names ⟨"Office", "bell"⟩ ∧
    (∃ b is, (after [] officeChanges).lookup ⟨"Office", "path"⟩ = some b ∧
      b.Misnames (after [] officeChanges).converters is [] ()
        (.missingInjection .handler 0 (.host .request))) ∧
    ∃ b is, (after [] officeChanges).lookup ⟨"Office", "ask"⟩ = some b ∧
      b.Misnames (after [] officeChanges).converters is [] () (.argumentCount .callable 1 0 0) := by
  have hr : (after [] officeChanges).Reachable := reachable_after [] officeChanges
  have hring := (reachable_errors_name_binding hr ⟨"Office", "ring"⟩ .empty [] ()).2
  have hbell := (reachable_errors_name_binding hr ⟨"Office", "bell"⟩ .empty [] ()).2
  have hpath := (reachable_errors_name_binding hr ⟨"Office", "path"⟩ .empty [] ()).1
    (.missingInjection .handler 0 (.host .request))
  have hask := (reachable_errors_name_binding hr ⟨"Office", "ask"⟩ .empty [] ()).1
    (.argumentCount .callable 1 0 0)
  refine ⟨rfl, hring ?_ _ rfl, hbell ?_ _ rfl, ?_, ?_⟩
  · intro b hb
    cases hb
    decide
  · intro b hb
    cases hb
  · obtain ⟨b, is, _, hb, -, hmisnames⟩ := hpath.1 ⟨rfl, fun hnames => by cases hnames .handler rfl⟩
    exact ⟨b, is, hb, hmisnames⟩
  · obtain ⟨b, is, _, hb, -, hmisnames⟩ := hask.1 ⟨rfl, fun hnames => by cases hnames .callable rfl⟩
    exact ⟨b, is, hb, hmisnames⟩

end Registry

end BindingRegistry
