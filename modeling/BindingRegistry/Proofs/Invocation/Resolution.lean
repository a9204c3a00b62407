import BindingRegistry.Proofs.Invocation.Precedence

/-!
Values that filters take out of the injections and leave in them. A predicate
over typed values is asked when there is a value for each of its types, and
otherwise the first type without one is reported and nothing happens. Injections
are handed on from filter to filter and to the callable of one invocation: what
one filter puts in, all behind it find until another one changes it, and whatever
is found was brought by the call or put in by a filter of the same invocation.
-/
namespace BindingRegistry

variable {σ : Type} {is : Injections}

/-- The value is what the injections have for its type. -/
def Holds (i : Injected) (is : Injections) : Prop := is.get? i.1 = some i.2

namespace Filter

/-- Each of the arguments is what the injections have for its type. -/
def Held (is : Injections) (ts : List Ty) (as : Args ts) : Prop := ∀ i ∈ as.items, Holds i is

/-- The first of the types without a value. -/
def missing? (is : Injections) (ts : List Ty) : Option Ty := ts.find? (fun t => !is.contains t)

theorem held_cons {t : Ty} {ts : List Ty} {a : t.Denote} {as : Args ts} :
    Held is (t :: ts) (a, as) ↔ is.get? t = some a ∧ Held is ts as := by
  simp [Held, Holds, Args.items]

theorem missing?_cons (t : Ty) (ts : List Ty) :
    missing? is (t :: ts) = if is.contains t then missing? is ts else some t := by
  rw [missing?, List.find?_cons]
  cases is.contains t <;> rfl

theorem missing?_eq_none_iff {ts : List Ty} :
    missing? is ts = none ↔ ∀ t ∈ ts, is.contains t = true := by
  simp [missing?]

theorem resolve_eq_ok_iff {ts : List Ty} {as : Args ts} :
    resolve is ts = .ok as ↔ Held is ts as := by
  induction ts with
  | nil => simp [resolve, Held, Args.items]
  | cons t ts ih =>
    obtain ⟨a, as⟩ := as
    rw [held_cons, ← ih, resolve]
    cases is.get? t with
    | none => simp
    | some a' => cases resolve is ts <;> simp

theorem resolve_eq_error_iff {ts : List Ty} {t : Ty} :
    resolve is ts = .error t ↔ missing? is ts = some t := by
  induction ts with
  | nil => simp [resolve, missing?]
  | cons t' ts ih =>
    rw [missing?_cons, resolve, TypeMap.contains]
    cases is.get? t' with
    | none => simp
    | some a =>
      simp only [Option.isSome_some, if_true, ← ih]
      cases resolve is ts <;> simp

/-- There are values to ask a predicate on exactly if there is one for each type. -/
theorem exists_held_iff {ts : List Ty} :
    (∃ as, Held is ts as) ↔ ∀ t ∈ ts, is.contains t = true := by
  rw [← missing?_eq_none_iff]
  constructor
  · rintro ⟨as, has⟩
    rw [← resolve_eq_ok_iff] at has
    cases hm : missing? is ts with
    | none => rfl
    | some t =>
      rw [resolve_eq_error_iff.2 hm] at has
      cases has
  · intro hm
    cases hr : resolve is ts with
    | ok as => exact ⟨as, resolve_eq_ok_iff.1 hr⟩
    | error t =>
      rw [resolve_eq_error_iff, hm] at hr
      cases hr

/-- How a predicate over values of these types is asked in these injections. -/
structure Asked (ts : List Ty) (p : Predicate σ ts) (o : Outline) (is : Injections) : Prop where
  complete : (∃ as, Held is ts as) ↔ ∀ t ∈ ts, is.contains t = true
  incomplete : (∃ t, missing? is ts = some t) ↔ ¬ ∀ t ∈ ts, is.contains t = true
  /-- It is asked on the values of its types, and may change the injections. -/
  asked : ∀ as, Held is ts as → autoInject ts p o is = p as is
  /-- Without one of them the filter reports the first that is missing and rejects. -/
  rejected : ∀ t, missing? is ts = some t →
    autoInject ts p o is = (do Action.log (.unresolvedFilter o.name t); return (false, is))
  /-- A predicate that notes what it is asked on is asked once on those values, or never. -/
  noted : ∀ notes : σ → List (Args ts × Injections),
    (∀ as is s, notes ((p as is).result s).2 = notes s ++ [(as, is)]) → ∀ s,
      (∀ as, notes ((autoInject ts p o is).result s).2 = notes s ++ [(as, is)] ↔ Held is ts as) ∧
      (notes ((autoInject ts p o is).result s).2 = notes s ↔ ¬ ∀ t ∈ ts, is.contains t = true)

theorem autoInject_of_held {ts : List Ty} {as : Args ts} (h : Held is ts as) (p : Predicate σ ts)
    (o : Outline) : autoInject ts p o is = p as is := by
  rw [autoInject, resolve_eq_ok_iff.2 h]

theorem autoInject_of_missing {ts : List Ty} {t : Ty} (h : missing? is ts = some t)
    (p : Predicate σ ts) (o : Outline) : autoInject ts p o is =
      (do Action.log (.unresolvedFilter o.name t); return (false, is)) := by
  rw [autoInject, resolve_eq_error_iff.2 h]

/-- Filters of the library that ask a predicate are of this kind. -/
theorem asked_autoInject (ts : List Ty) (p : Predicate σ ts) (o : Outline) (is : Injections) :
    Asked ts p o is where
  complete := exists_held_iff
  incomplete := by rw [← missing?_eq_none_iff, ← ne_eq, Option.ne_none_iff_exists']
  asked as h := autoInject_of_held h p o
  rejected t h := autoInject_of_missing h p o
  noted notes hp s := by
    rw [← exists_held_iff]
    cases hm : resolve is ts with
    | ok as =>
      have has : Held is ts as := resolve_eq_ok_iff.1 hm
      rw [autoInject_of_held has, hp]
      refine ⟨fun as' => ?_, ?_⟩
      · rw [← resolve_eq_ok_iff, hm]
        simp
      · have hsome : ∃ as, Held is ts as := ⟨as, has⟩
        simp [hsome]
    | error t =>
      have hnone : ¬ ∃ as, Held is ts as := by
        rintro ⟨as, has⟩
        rw [resolve_eq_ok_iff.2 has] at hm
        cases hm
      rw [autoInject_of_missing (resolve_eq_error_iff.1 hm)]
      refine ⟨fun as => ?_, ?_⟩
      · simp only [Action.result_bind, Action.result_log, Action.result_pure]
        exact ⟨fun h => by simp at h, fun has => absurd ⟨as, has⟩ hnone⟩
      · simp [hnone]

end Filter

open BindingRegistry.Filter (Predicate Held missing? autoInject)

/-- Whoever asks the injections for the type of the value gets it: a predicate at each of its
places, the callable at each injected position, and a handler. -/
structure Resolvable (b : Binding σ) (i : Injected) (is : Injections) : Prop where
  holds : Holds i is
  predicate : ∀ ts, missing? is ts ≠ some i.1 ∧
    ∀ as, Held is ts as → ∀ p : Nat, ts[p]? = some i.1 → as.items[p]? = some i
  slot : ∀ args slots, b.assemble is args = .ok slots →
    ∀ p : Nat, b.slots[p]? = some (i.1, true) → slots[p]? = some (.injected i)
  never_absent : ∀ args p, b.assemble is args ≠ .error (.missingInjection (.binding b.name) p i.1)
  handler : ∀ returns run, b.callable = .handler i.1 returns run → ∀ cs slots,
    b.callable.call cs slots is = (do return returns.intoValues (← run i.2))

theorem Filter.Held.item {ts : List Ty} {as : Args ts} (h : Held is ts as) {i : Injected}
    (hi : Holds i is) {p : Nat} (hp : ts[p]? = some i.1) : as.items[p]? = some i := by
  induction ts generalizing p with
  | nil => simp at hp
  | cons t ts ih =>
    obtain ⟨a, as⟩ := as
    obtain ⟨ha, has⟩ := held_cons.1 h
    cases p with
    | succ p => exact ih has (by simpa using hp)
    | zero =>
      obtain ⟨t', a'⟩ := i
      obtain rfl : t = t' := by simpa using hp
      obtain rfl : a = a' := by simpa [Holds, ha] using hi
      rfl

theorem Holds.contains {i : Injected} (h : Holds i is) : is.contains i.1 = true := by
  rw [TypeMap.contains, h]
  rfl

/-- What is held reaches every kind of reader, whichever callable there is. -/
theorem Holds.resolvable {i : Injected} (h : Holds i is) (b : Binding σ) : Resolvable b i is where
  holds := h
  predicate ts := by
    refine ⟨fun hm => ?_, fun as has p => has.item h⟩
    have hfalse := List.find?_some hm
    rw [h.contains] at hfalse
    cases hfalse
  slot args slots ha p hp := by
    have hplaced : Placed is b.slots args slots := fill_eq_ok_iff.1 ha
    obtain ⟨a, hget, hslot⟩ := hplaced.injected p i.1 hp
    obtain rfl : i.2 = a := Option.some.inj (h.symm.trans hget)
    exact hslot
  never_absent args p ha := by
    rcases fill_error ha with ⟨q, t, -, hnone, he⟩ | he
    · cases he
      rw [h] at hnone
      cases hnone
    · cases he
  handler returns run hb cs slots := by
    rw [hb, Callable.call, h]

/-- A filter of the chain finds injections that are not as `P` says, accepts, and leaves some that
are. -/
inductive Brings (o : Outline) (P : Injections → Prop) :
    List (Filter σ) → Injections → σ → Prop where
  | here {f : Filter σ} {fs : List (Filter σ)} {is is₁ : Injections} {s s₁ : σ} :
    (f o is).result s = ((true, is₁), s₁) → ¬ P is → P is₁ → Brings o P (f :: fs) is s
  | later {f : Filter σ} {fs : List (Filter σ)} {is is₁ : Injections} {s s₁ : σ} :
    (f o is).result s = ((true, is₁), s₁) → Brings o P fs is₁ s₁ → Brings o P (f :: fs) is s

/-- What holds behind a chain held before it, or one of its filters brings it about. -/
theorem ChainRun.holds_or_brings {o : Outline} {P : Injections → Prop} {fs : List (Filter σ)}
    {is' : Injections} {s s' : σ} (h : ChainRun o fs is s true is' s') (hP : P is') :
    P is ∨ Brings o P fs is s := by
  generalize hpassed : true = passed at h
  induction h with
  | done is s => exact .inl hP
  | stop => cases hpassed
  | @next f fs passed is is₁ is₂ s s₁ s₂ hf _ ih =>
    rcases ih hP hpassed with h₁ | hlater
    · by_cases h₀ : P is
      · exact .inl h₀
      · exact .inr (.here hf h₀ h₁)
    · exact .inr (.later hf hlater)

/-- A value stays through a chain, unless one of its filters takes it out or replaces it. -/
theorem ChainRun.holds_or_loses {o : Outline} {fs : List (Filter σ)} {is' : Injections} {s s' : σ}
    {i : Injected} (h : ChainRun o fs is s true is' s') (hi : Holds i is) :
    Holds i is' ∨ Brings o (fun is => ¬ Holds i is) fs is s := by
  by_cases hi' : Holds i is'
  · exact .inl hi'
  · rcases h.holds_or_brings (P := fun is => ¬ Holds i is) hi' with hnot | hbrings
    · exact absurd hi hnot
    · exact .inr hbrings

/-- An invocation from where these filters are left, with the injections they are to find. -/
def Binding.proceed (b : Binding σ) (cs : Converters) (later : List (Filter σ)) (is : Injections)
    (args : List Value) : Action σ (Except InvokeError Value) := do
  let (passed, injections) ← runFilters b.outline later is
  if passed then
    b.carryOut cs injections args
  else
    Action.log (.rejected b.name)
    return .ok .null

/-- An invocation comes through the filters that `passed`, and the `later` ones are left; if there
are none, the callable. -/
structure Reached (b : Binding σ) (call : Injections) (s : σ) (passed later : List (Filter σ))
    (is : Injections) (s' : σ) : Prop where
  filters : b.filters = passed ++ later
  run : ChainRun b.outline passed (b.merged call) s true is s'

namespace Reached

variable {b : Binding σ} {call is' : Injections} {s s' s'' : σ} {passed later : List (Filter σ)}

theorem invoke (h : Reached b call s passed later is s') (cs : Converters) (args : List Value) :
    (invoke b cs call args).result s = (b.proceed cs later is args).result s' := by
  obtain ⟨accepted, is', s'', hlater⟩ := exists_chainRun b.outline later is s'
  have hall := h.run.append hlater
  rw [← h.filters] at hall
  simp only [BindingRegistry.invoke, Binding.proceed, Action.result_bind, Action.result_log,
    hall.result, hlater.result]
  rfl

/-- The next filter finds the injections as they are and hands on what it leaves. -/
theorem step {f : Filter σ} (h : Reached b call s passed (f :: later) is s')
    (hf : (f b.outline is).result s' = ((true, is'), s'')) :
    Reached b call s (passed ++ [f]) later is' s'' where
  filters := by rw [h.filters, List.append_assoc, List.singleton_append]
  run := h.run.append (.next hf (.done is' s''))

theorem trans {between : List (Filter σ)} (h : Reached b call s passed (between ++ later) is s')
    (hbetween : ChainRun b.outline between is s' true is' s'') :
    Reached b call s (passed ++ between) later is' s'' where
  filters := by rw [h.filters, List.append_assoc]
  run := h.run.append hbetween

/-- Whatever an invocation finds, the call brought it or one of its own filters put it in. -/
theorem found {i : Injected} (h : Reached b call s passed later is s') (hi : Holds i is) :
    b.received call i.1 = some i.2 ∨ Brings b.outline (Holds i) passed (b.merged call) s := by
  rw [← b.get?_merged_eq_received]
  exact h.run.holds_or_brings hi

end Reached

/-- A predicate over typed values is asked exactly if the injections hold one for each type, on
these in order and with the injections at hand; otherwise the filter rejects, leaves them as they
are and reports the first type that is missing. In a chain a filter finds what the one before it
left: a value that a filter leaves is resolvable for every later one and for the callable unless a
filter between takes it out or replaces it, and what an invocation finds, its own call brought or
one of its own filters put in, never another invocation. -/
theorem predicates_resolve_all_or_nothing :
    (∀ ts (p : Predicate σ ts) o is, Filter.Asked ts p o is) ∧
    (∀ (b : Binding σ) call s before f between later is is₁ is₂ s₁ s₂ s₃ i,
      Reached b call s before (f :: (between ++ later)) is s₁ →
      (f b.outline is).result s₁ = ((true, is₁), s₂) → Holds i is₁ →
      ChainRun b.outline between is₁ s₂ true is₂ s₃ →
        Reached b call s (before ++ [f] ++ between) later is₂ s₃ ∧
        (Resolvable b i is₂ ∨ Brings b.outline (fun is => ¬ Holds i is) between is₁ s₂)) ∧
    ∀ (b : Binding σ) call s passed later is s', Reached b call s passed later is s' →
      (∀ cs args, (invoke b cs call args).result s = (b.proceed cs later is args).result s') ∧
      ∀ i, Holds i is → b.received call i.1 = some i.2 ∨
        Brings b.outline (Holds i) passed (b.merged call) s := by
  refine ⟨Filter.asked_autoInject, ?_, ?_⟩
  · intro b call s before f between later is is₁ is₂ s₁ s₂ s₃ i hreached hf hi hbetween
    constructor
    · exact (hreached.step hf).trans hbetween
    · exact (hbetween.holds_or_loses hi).imp (fun hi₂ => hi₂.resolvable b) id
  · intro b call s passed later is s' hreached
    constructor
    · exact hreached.invoke
    · exact fun i => hreached.found

/-- Tokens that a world has noted, each with the injections at hand. -/
abbrev Visits := List (Args [.token] × Injections)

def admitting : Predicate Visits [.token] := fun as is => do
  Action.change (· ++ [(as, is)])
  return (true, is.insert .user as.1)

def agreeing : Predicate Visits [.user, .user] := fun as is => return (as.1 = as.2.1, is)

def forgetting : Filter Visits := fun _ is => return (true, is.erase .user)

def showing : Operation Visits where
  params := [.user]
  returns := .typed .string
  run as := pure as.1

def showUser : Binding Visits :=
  (Binding.ofCallable ⟨"Users", "show"⟩ (.function showing)).inject ⟨.user, "guest"⟩

def tokenCall : Injections := TypeMap.empty.insert .token "carol"

/-- A filter between is free to take a value out: then it is not resolvable any more, and the call
that the filters let pass finds no user. -/
theorem user_taken_out :
    (¬ ∀ (b : Binding Visits) call s before f between later is is₁ is₂ s₁ s₂ s₃ i,
      Reached b call s before (f :: (between ++ later)) is s₁ →
      (f b.outline is).result s₁ = ((true, is₁), s₂) → Holds i is₁ →
      ChainRun b.outline between is₁ s₂ true is₂ s₃ → Resolvable b i is₂) ∧
    ((invoke ((showUser.addFilter (autoInject [.token] admitting)).addFilter forgetting) .empty
      tokenCall []).result []).1 =
        .error (.missingInjection (.binding ⟨"Users", "show"⟩) 0 .user) := by
  refine ⟨fun hall => ?_, rfl⟩
  have hfirst : Reached ((showUser.addFilter (autoInject [.token] admitting)).addFilter forgetting)
      tokenCall [] [] [autoInject [.token] admitting, forgetting] (showUser.merged tokenCall) [] :=
    ⟨rfl, .done _ _⟩
  have hresolvable := hall _ _ _ _ (autoInject [.token] admitting) [forgetting] [] _ _ _ _ _ _
    ⟨.user, "carol"⟩ hfirst rfl rfl (.next rfl (.done _ _))
  cases hresolvable.holds

/-- Behind a filter that admits by token and one that asks for the user twice. -/
def admittedUsers : Binding Visits :=
  (showUser.addFilter (autoInject [.token] admitting)).addFilter
    (autoInject [.user, .user] agreeing)

/-- The second filter and the function find the user that the first one made of the token. A call
without a token is rejected, nothing is noted, and the user of the other call is not there. -/
theorem users_are_admitted : ∃ is s₁,
    Reached admittedUsers tokenCall [] admittedUsers.filters [] is s₁ ∧ s₁.length = 1 ∧
    Resolvable admittedUsers ⟨.user, "carol"⟩ is ∧
    ((invoke admittedUsers .empty tokenCall []).result []).1 = .ok (.string "carol") ∧
    (invoke admittedUsers .empty .empty []).result [] = (.ok .null, []) ∧
    ((autoInject [.token] admitting admittedUsers.outline (admittedUsers.merged .empty)).result
      []).2 = [] ∧
    ¬ Holds ⟨.user, "carol"⟩ (admittedUsers.merged .empty) := by
  obtain ⟨hasked, hkept, hfound⟩ := predicates_resolve_all_or_nothing (σ := Visits)
  have hfirst : Reached admittedUsers tokenCall [] [] admittedUsers.filters
      (admittedUsers.merged tokenCall) [] := ⟨rfl, .done _ _⟩
  have hother : Reached admittedUsers .empty [] [] admittedUsers.filters
      (admittedUsers.merged .empty) [] := ⟨rfl, .done _ _⟩
  have hnoted := (hasked [.token] admitting admittedUsers.outline
    (admittedUsers.merged .empty)).noted id (fun _ _ _ => rfl) []
  have hagreed : ChainRun admittedUsers.outline [autoInject [.user, .user] agreeing]
      ((admittedUsers.merged tokenCall).insert .user "carol")
      [(("carol", ()), admittedUsers.merged tokenCall)] true
      ((admittedUsers.merged tokenCall).insert .user "carol")
      [(("carol", ()), admittedUsers.merged tokenCall)] := .next rfl (.done _ _)
  obtain ⟨hlast, hresolvable⟩ := hkept admittedUsers tokenCall [] []
    (autoInject [.token] admitting) [autoInject [.user, .user] agreeing] [] _ _ _ _ _ _
    ⟨.user, "carol"⟩ hfirst rfl rfl hagreed
  refine ⟨_, _, hlast, rfl, ?_, ?_, rfl, hnoted.2.2 ?_, fun hcarol => ?_⟩
  · rcases hresolvable with hresolvable | hbrings
    · exact hresolvable
    · cases hbrings with
      | here hg hkept hlost =>
        cases hg
        exact absurd hlost hkept
      | later _ hrest => cases hrest
  · rw [(hfound _ _ _ _ _ _ _ hlast).1 .empty []]
    rfl
  · intro hall
    exact absurd (hall _ List.mem_cons_self) (by decide)
  · rcases (hfound _ _ _ _ _ _ _ hother).2 _ hcarol with hguest | hbrings
    · exact absurd hguest (by decide)
    · cases hbrings

end BindingRegistry
