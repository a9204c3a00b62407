import BindingRegistry.Proofs.Registry.Defaults

/-!
How many values a callable produces. Its return type says it: as many values
are written as the type declares, unless a result at some depth is an error of
the callable or some content has no written form. An exposure passes over what
declares more than one value, so the invocation of a binding that was exposed
never has values to drop: whatever were done with them, it would be the same
invocation.
-/
namespace BindingRegistry

variable {σ : Type}

/-- The callable's own error, if a result has one at any depth. -/
def Returns.failure? : (r : Returns) → r.Denote → Option Failure
  | .result _, .error e => some e
  | .result r, .ok a => r.failure? a
  | .nothing, _ | .one _, _ | .pair .., _ | .triple .., _ | .quad .., _ => none

/-- There are `k` values, or some content has no written form. -/
def Produces (k : Nat) (x : Except InvokeError (List Value)) : Prop :=
  (∃ vs, x = .ok vs ∧ vs.length = k) ∨ ∃ reason, x = .error (.unwritable reason)

theorem Produces.length {k : Nat} {x : Except InvokeError (List Value)} {vs : List Value}
    (h : Produces k x) (hx : x = .ok vs) : vs.length = k := by
  rcases h with ⟨ws, hws, hlen⟩ | ⟨reason, hreason⟩
  · obtain rfl : vs = ws := Except.ok.inj (hx.symm.trans hws)
    exact hlen
  · rw [hx] at hreason
    cases hreason

/-- Values that are written after another one. -/
theorem produces_write {r : Returned} {a : r.Denote} {k : Nat}
    {f : Value → Except InvokeError (List Value)} (hf : ∀ v, Produces k (f v)) :
    Produces k (r.write a >>= f) := by
  cases r with
  | typed t => exact hf (t.encode a)
  | structured =>
    cases a with
    | ok v => exact hf v
    | error reason => exact .inr ⟨reason, rfl⟩

namespace Returns

theorem intoValues_of_failure {r : Returns} {a : r.Denote} {e : Failure}
    (h : r.failure? a = some e) : r.intoValues a = .error (.callable e) := by
  induction r with
  | result r ih =>
    cases a with
    | ok a => exact ih h
    | error e' =>
      cases h
      rfl
  | _ => cases h

/-- Without an error of its own the callable produces as many values as its type says, if all of them
can be written. -/
theorem produces_intoValues {r : Returns} {a : r.Denote} (h : r.failure? a = none) :
    Produces r.arity (r.intoValues a) := by
  induction r with
  | nothing => exact .inl ⟨[], rfl, rfl⟩
  | one r => exact produces_write fun v => .inl ⟨[v], rfl, rfl⟩
  | pair r₁ r₂ =>
    exact produces_write fun v => produces_write fun w => .inl ⟨[v, w], rfl, rfl⟩
  | triple r₁ r₂ r₃ =>
    exact produces_write fun v => produces_write fun w => produces_write fun x =>
      .inl ⟨[v, w, x], rfl, rfl⟩
  | quad r₁ r₂ r₃ r₄ =>
    exact produces_write fun v => produces_write fun w => produces_write fun x =>
      produces_write fun y => .inl ⟨[v, w, x, y], rfl, rfl⟩
  | result r ih =>
    cases a with
    | ok a => exact ih h
    | error e => cases h

/-- As many values as the type declares. -/
theorem length_intoValues {r : Returns} {a : r.Denote} {vs : List Value}
    (h : r.intoValues a = .ok vs) : vs.length = r.arity := by
  cases hf : r.failure? a with
  | none => exact (produces_intoValues hf).length h
  | some e =>
    rw [intoValues_of_failure hf] at h
    cases h

end Returns

def Callable.returns? : Callable σ → Option Returns
  | .function op | .method op => some op.returns
  | .getter r _ | .handler _ r _ => some r
  | .proxy _ | .custom _ => none

theorem Operation.length_call {op : Operation σ} {cs : Converters} {slots : List Slot} {s : σ}
    {vs : List Value} (h : ((op.call cs slots).result s).1 = .ok vs) :
    vs.length = op.returns.arity := by
  cases ht : (ArgVector.takeAll cs op.params { slots }).value with
  | error e =>
    rw [Operation.call_error ht] at h
    cases h
  | ok as =>
    rw [Operation.call_ok ht] at h
    exact Returns.length_intoValues h

theorem Callable.length_call {c : Callable σ} {r : Returns} {cs : Converters} {slots : List Slot}
    {is : Injections} {s : σ} {vs : List Value} (hr : c.returns? = some r)
    (h : ((c.call cs slots is).result s).1 = .ok vs) : vs.length = r.arity := by
  cases c with
  | function op | method op =>
    cases hr
    exact Operation.length_call h
  | getter r get =>
    cases hr
    exact Returns.length_intoValues h
  | handler context r run =>
    cases hr
    rw [Callable.call] at h
    split at h
    · cases h
    · exact Returns.length_intoValues h
  | proxy | custom => cases hr

theorem Member.returns?_callable (m : Member σ) :
    ∃ r, m.callable.returns? = some r ∧ r.arity = m.arity := by
  cases m with
  | method k op => exact ⟨op.returns, rfl, rfl⟩
  | getter k r get => exact ⟨r, rfl, rfl⟩

theorem Action.bind_congr {x : Action σ α} {f g : α → Action σ β}
    (h : ∀ s, f (x.result s).1 = g (x.result s).1) : x >>= f = x >>= g := by
  funext s
  have hs : f (x.result s).1 (x.result s).2 = g (x.result s).1 (x.result s).2 := congrFun (h s) _
  exact congrArg (fun l : Logged (β × σ) => Logged.mk ((x s).events ++ l.events) l.value) hs

/-- The invocation of a binding, with the produced values made a result by `finish`. -/
def invokeWith (finish : List Value → Action σ Value) (b : Binding σ) (cs : Converters)
    (call : Injections) (args : List Value) : Action σ (Except InvokeError Value) := do
  Action.log (.invoking b.name args.length)
  let (passed, injections) ← runFilters b.outline b.filters (b.merged call)
  if passed then
    match ← b.prepare injections args with
    | .error e => return .error e
    | .ok slots =>
      match ← b.callable.call cs slots injections with
      | .error e => return .error e
      | .ok values => return .ok (← finish values)
  else
    Action.log (.rejected b.name)
    return .ok .null

theorem invokeWith_normalize (b : Binding σ) (cs : Converters) (call : Injections)
    (args : List Value) : invokeWith b.normalize b cs call args = invoke b cs call args := rfl

/-- What is done with values that the callable never produces does not matter. -/
theorem invokeWith_congr {finish finish' : List Value → Action σ Value} {b : Binding σ}
    {cs : Converters} (h : ∀ slots is s vs, ((b.callable.call cs slots is).result s).1 = .ok vs →
      finish vs = finish' vs) (call : Injections) (args : List Value) :
    invokeWith finish b cs call args = invokeWith finish' b cs call args := by
  have hcarried (is : Injections) (slots : List Slot) :
      (do match ← b.callable.call cs slots is with
          | .error e => return .error e
          | .ok values => return .ok (← finish values) : Action σ (Except InvokeError Value)) =
        (do match ← b.callable.call cs slots is with
          | .error e => return .error e
          | .ok values => return .ok (← finish' values)) := by
    refine Action.bind_congr fun s => ?_
    cases hv : ((b.callable.call cs slots is).result s).1 with
    | error e => rfl
    | ok vs => simp only [h slots is s vs hv]
  simp only [invokeWith, hcarried]

/-- Only a registration replaces a callable. -/
theorem Change.callable_effect (n : QualifiedName) (c : Change σ) (b : Binding σ) :
    (c.effect n b).callable = b.callable := by
  cases c with
  | adjust m a =>
    rw [Change.effect]
    split
    · cases a <;> rfl
    · rfl
  | adjustEach names a =>
    rw [Change.effect]
    induction names.count n with
    | zero => rfl
    | succ k ih =>
      rw [Function.iterate_succ_apply', ← ih]
      cases a <;> rfl
  | _ => rfl

theorem Change.callable_effects (n : QualifiedName) (cs : List (Change σ)) (b : Binding σ) :
    (Change.effects n cs b).callable = b.callable := by
  induction cs generalizing b with
  | nil => rfl
  | cons c cs ih => exact (ih (c.effect n b)).trans (c.callable_effect n b)

namespace Flat

/-- A binding that was exposed last has the callable of a member that the exposure registered. -/
theorem exists_member_of_exposed {settings : List Builder.Setting}
    {changes before since : List (Change σ)} {n : QualifiedName} {b : Binding σ}
    {interface : String} {wanted : String → Bool} {members : List (Member σ)}
    (h : (after settings changes).bindings n = some b)
    (hlast : LastRegistration (start settings : Flat σ).defaultName n changes before
      (.expose interface wanted members) since) :
    ∃ m ∈ Member.exposed wanted members, b.callable = m.callable := by
  obtain ⟨b₀, hb₀, rfl⟩ := exists_bindings_since h hlast.split hlast.none_since
  rw [apply_of_registering _ hlast.registers.registering] at hb₀
  obtain ⟨c, hc, hb⟩ := exists_bindings_putEach (after settings before) hlast.registers
  obtain rfl : b₀ = (after settings before).registered n c := Option.some.inj (hb₀.symm.trans hb)
  obtain ⟨m, hm, hmc⟩ := List.mem_map.1 hc
  refine ⟨m, hm, ?_⟩
  rw [Change.callable_effects, registered, (Registry.injectAll_rest _ _).1]
  exact (congrArg Prod.snd hmc).symm

end Flat

namespace Registry

/-- A value of any return type is written as many values as the type declares, is the callable's
own error if a result has one at any depth, or has content without a written form. So a binding
that was exposed last, after any changes, produces one value at most, and none of its invocations
comes to where values are dropped: with anything else done to them it is the same. -/
theorem after_exposed_drops_nothing (settings : List Builder.Setting)
    (changes : List (Change σ)) :
    (∀ (r : Returns) (a : r.Denote),
      (∀ vs, r.intoValues a = .ok vs → vs.length = r.arity) ∧
      (∀ e, r.failure? a = some e → r.intoValues a = .error (.callable e)) ∧
      (r.failure? a = none → Produces r.arity (r.intoValues a))) ∧
    ∀ n b before interface wanted members since,
      (after settings changes).lookup n = some b →
      LastRegistration (after settings changes).defaultName n changes before
        (.expose interface wanted members) since →
      (∀ cs slots is s vs, ((b.callable.call cs slots is).result s).1 = .ok vs → vs.length ≤ 1) ∧
      ∀ finish, (∀ vs, vs.length ≤ 1 → finish vs = b.normalize vs) → ∀ cs call args,
        invokeWith finish b cs call args = BindingRegistry.invoke b cs call args := by
  refine ⟨fun r a => ⟨fun vs => Returns.length_intoValues,
    fun e => Returns.intoValues_of_failure, Returns.produces_intoValues⟩, ?_⟩
  intro n b before interface wanted members since hb hlast
  have hflat : (after settings changes).flat = Flat.after settings changes :=
    flat_after settings changes
  have hname : (after settings changes).defaultName =
      (Flat.start settings : Flat σ).defaultName :=
    (congrArg Flat.defaultName hflat).trans (Flat.defaultName_after settings changes)
  have hb' : (Flat.after settings changes).bindings n = some b := by
    rw [← hflat]
    exact hb
  rw [hname] at hlast
  obtain ⟨m, hm, hmc⟩ := Flat.exists_member_of_exposed hb' hlast
  have harity : m.arity ≤ 1 := by
    have hkept := (List.mem_filter.1 hm).2
    rw [Bool.and_eq_true, decide_eq_true_iff] at hkept
    exact hkept.2
  have hfew : ∀ cs slots is s vs, ((b.callable.call cs slots is).result s).1 = .ok vs →
      vs.length ≤ 1 := by
    intro cs slots is s vs h
    rw [hmc] at h
    obtain ⟨r, hr, hra⟩ := m.returns?_callable
    rw [Callable.length_call hr h, hra]
    exact harity
  refine ⟨hfew, fun finish hfinish cs call args => ?_⟩
  rw [← invokeWith_normalize]
  exact invokeWith_congr (fun slots is s vs h => hfinish vs (hfew cs slots is s vs h)) call args

/-- A measure of a jug that fails once the world counts more than two measures, by a result inside
a result. -/
def measuring : Operation Nat where
  params := [.i64]
  returns := .result (.result (.typed .i64))
  run as := Action.onWorld fun k =>
    (.ok (if 2 < k then .error ⟨"worn out", []⟩ else .ok as.1), k + 1)

/-- A jug that announces its level twice under one name, the second time as two values. -/
def jugChanges : List (Change Nat) :=
  [.register ⟨"Jug", "level"⟩ (.function ⟨[], .pair (.typed .i64) (.typed .i64),
      fun _ => pure (.wrap .i64 1, .wrap .i64 2)⟩),
    .expose "Jug" (fun _ => true) [.method "level" measuring,
      .getter "level" (.pair (.typed .bool) (.typed .bool)) (pure (true, false))],
    .adjust ⟨"Jug", "level"⟩ (.addFilter (.counting id))]

/-- The level was a function with two values, of which each call dropped one. The exposed measure
drops none, whether it succeeds or fails. -/
theorem jug_drops_nothing : ∃ b,
    (after [] jugChanges).lookup ⟨"Jug", "level"⟩ = some b ∧
    (BindingRegistry.invoke b .empty .empty [.integer 7]).result 0 = (.ok (.integer 7), 1) ∧
    (BindingRegistry.invoke b .empty .empty [.integer 7]).result 3 =
      (.error (.callable ⟨"worn out", []⟩), 4) ∧
    (∀ args, invokeWith (fun vs => if vs.length ≤ 1 then b.normalize vs else return .array vs)
      b .empty .empty args = BindingRegistry.invoke b .empty .empty args) ∧
    ∀ vs, measuring.returns.intoValues (.ok (.ok (.wrap .i64 7))) = .ok vs → vs.length = 1 := by
  obtain ⟨hwritten, hexposed⟩ := after_exposed_drops_nothing [] jugChanges
  obtain ⟨b, hb⟩ : ∃ b, (after [] jugChanges).lookup ⟨"Jug", "level"⟩ = some b := ⟨_, rfl⟩
  have hlast : LastRegistration (after [] jugChanges).defaultName ⟨"Jug", "level"⟩ jugChanges
      (jugChanges.take 1) (.expose "Jug" (fun _ => true) [.method "level" measuring,
        .getter "level" (.pair (.typed .bool) (.typed .bool)) (pure (true, false))])
      (jugChanges.drop 2) := by
    refine ⟨rfl, ⟨.method measuring, List.mem_singleton_self _⟩, fun c hc => ?_⟩
    rw [List.mem_singleton.1 hc]
    rintro ⟨callable, hmem⟩
    cases hmem
  have hsame := (hexposed _ b _ _ _ _ _ hb hlast).2
    (fun vs => if vs.length ≤ 1 then b.normalize vs else return .array vs)
    (fun vs hvs => if_pos hvs)
  refine ⟨b, hb, ?_, ?_, hsame .empty .empty, (hwritten measuring.returns _).1⟩
  · cases hb
    rfl
  · cases hb
    rfl

end Registry

end BindingRegistry
