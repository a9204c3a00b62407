import BindingRegistry.Proofs.Injection.Merging
import BindingRegistry.Proofs.Invocation.Gate
import BindingRegistry.Proofs.Invocation.Placement

/-!
Which value an injected parameter and a handler receive. The name of a binding
is its own, whatever was injected; of another type the value given with the call
counts before the default. Where no filter stands between, nothing else of an
injection set is seen: calls that agree on the types of the injected positions
come to the same.
-/
namespace BindingRegistry

variable {σ : Type}

namespace Binding

variable {b : Binding σ} {call call' : Injections}

/-- What a call brings to parameters and handlers of a type. -/
def received (b : Binding σ) (call : Injections) : (t : Ty) → Option t.Denote
  | .name => some b.name
  | t => (call.get? t).or (b.singletons.get? t)

theorem get?_merged_eq_received (b : Binding σ) (call : Injections) (t : Ty) :
    (b.merged call).get? t = b.received call t := by
  rw [get?_merged]
  cases t <;> rfl

/-- Without filters a call is reported and carried out. -/
theorem invoke_of_no_filters (hf : b.filters = []) (cs : Converters) (call : Injections)
    (args : List Value) : invoke b cs call args =
      (do Action.log (.invoking b.name args.length); b.carryOut cs (b.merged call) args) := by
  rw [invoke, hf]
  rfl

/-- Only the types of marked parameters are looked up. -/
theorem fill_congr {whom : Culprit} {countError : InvokeError} {is is' : Injections} {i : Nat}
    {ps : List (Ty × Bool)} {args : List Value}
    (h : ∀ t, (t, true) ∈ ps → is.get? t = is'.get? t) :
    fill whom countError is i ps args = fill whom countError is' i ps args := by
  fun_induction fill whom countError is i ps args with
  | case1 => rfl
  | case2 => rfl
  | case3 i t ps args hnone =>
    rw [fill, ← h t List.mem_cons_self, hnone]
  | case4 i t ps args a ha ih =>
    have hrest := ih fun t' ht' => h t' (List.mem_cons_of_mem _ ht')
    rw [fill, ← h t List.mem_cons_self, ha, hrest]
  | case5 => rfl
  | case6 i t ps v args ih =>
    have hrest := ih fun t' ht' => h t' (List.mem_cons_of_mem _ ht')
    rw [fill, hrest]

/-- An assembly looks at nothing but the types of the injected positions. -/
theorem assemble_congr (h : ∀ t, (t, true) ∈ b.slots → call.get? t = call'.get? t)
    (args : List Value) :
    b.assemble (b.merged call) args = b.assemble (b.merged call') args := by
  refine fill_congr fun t ht => ?_
  rw [get?_merged, get?_merged, h t ht]

theorem prepare_congr (h : ∀ t, (t, true) ∈ b.slots → call.get? t = call'.get? t)
    (args : List Value) :
    b.prepare (b.merged call) args = b.prepare (b.merged call') args := by
  rw [prepare, prepare, assemble_congr h]

/-- A function or a method never sees the injections of a call other than in its slots. -/
theorem carryOut_congr {op : Operation σ} (hop : b.callable.operation? = some op)
    (h : ∀ t, (t, true) ∈ b.slots → call.get? t = call'.get? t) (cs : Converters)
    (args : List Value) :
    b.carryOut cs (b.merged call) args = b.carryOut cs (b.merged call') args := by
  rw [carryOut, carryOut, prepare_congr h]
  simp only [Callable.call_of_operation hop]

/-- The slot of an injected position holds the value that the call brings for its type. -/
theorem slot_received {args : List Value} {slots : List Slot}
    (ha : b.assemble (b.merged call) args = .ok slots) {p : Nat} {t : Ty}
    (hp : b.slots[p]? = some (t, true)) :
    ∃ a, b.received call t = some a ∧ slots[p]? = some (.injected ⟨t, a⟩) := by
  have hplaced : Placed (b.merged call) b.slots args slots := fill_eq_ok_iff.1 ha
  obtain ⟨a, hget, hslot⟩ := hplaced.injected p t hp
  exact ⟨a, (b.get?_merged_eq_received call t).symm.trans hget, hslot⟩

/-- A handler runs on the value that the call brings for its context, and cannot run without. -/
theorem invoke_handler {context : Ty} {returns : Returns}
    {run : context.Denote → Action σ returns.Denote}
    (hb : b.callable = .handler context returns run) (hf : b.filters = []) (cs : Converters)
    (call : Injections) (args : List Value) (s : σ) :
    (invoke b cs call args).result s =
      match b.received call context with
      | none => (.error (.missingInjection .handler 0 context), s)
      | some a => (firstOf (returns.intoValues ((run a).result s).1), ((run a).result s).2) := by
  have htakes : b.callable.takesArguments = false := by rw [hb]; rfl
  have hprepare : (b.prepare (b.merged call) []).result s = (.ok [], s) := by
    rw [prepare, htakes]
    rfl
  rw [invoke_takes_none htakes cs call args [] s, invoke_of_no_filters hf, carryOut, hb]
  simp only [Action.result_bind, Action.result_log, hprepare, Callable.call,
    get?_merged_eq_received]
  cases hreceived : b.received call context with
  | none => rfl
  | some a =>
    simp only [Action.result_bind, Action.result_pure]
    cases returns.intoValues ((run a).result s).1 with
    | error e => rfl
    | ok vs => simp [firstOf, normalize_result]

end Binding

/-- What a function runs on at an injected position is what its type takes from the value that the
call brings. -/
theorem Follows.received {b : Binding σ} {call : Injections} {op : Operation σ}
    (hop : b.callable.operation? = some op)
    (hf : b.filters = []) {cs : Converters} {args : List Value} {s s₁ : σ} {as : Args op.params}
    (h : Follows b op cs call args s (.ran as) s₁) {p : Nat} {t : Ty}
    (hp : b.slots[p]? = some (t, true)) :
    ∃ a a', b.received call t = some a ∧ t.accept a = some a' ∧ as.items[p]? = some ⟨t, a'⟩ := by
  cases h with
  | @ran is s₁ slots as hc ha hfits =>
    rw [hf] at hc
    cases hc
    obtain ⟨a, hreceived, hslot⟩ := Binding.slot_received ha hp
    have hparam : op.params[p]? = some t := by
      rw [← Callable.params_of_operation hop]
      exact (Binding.slots_getElem? hp).1
    obtain ⟨a', hyields, hitem⟩ := hfits p t _ hparam hslot
    cases hyields with
    | injected haccept => exact ⟨a, a', hreceived, by simpa [Injected.cast?] using haccept, hitem⟩

open TypeMap (merge)

/-- An injection set holds under each type what the edits of that type left there, and every value
in it is found under its own type. Of merged sets the last that has a type counts for it; merging
can be bracketed in any way, leaves a set alone that is merged with none or with itself, and does
not depend on the order in which a set is gone through. So where no filter stands between, an
injected position and a handler get the binding's own name for the type of names, and of another
type the value of the call before the default. Nothing else is seen of the sets: a function or a
method comes to the same on sets that agree on the types of its injected positions. -/
theorem injections_merge_and_precede :
    (∀ (es : List (TypeMap.Edit Ty.Denote)) (t : Ty),
      (es.foldl TypeMap.Edit.apply (.empty : Injections)).get? t =
        es.foldl (TypeMap.Edit.held t) none) ∧
    (∀ (is : Injections) (i : Injected), i ∈ is.entries ↔ is.get? i.1 = some i.2) ∧
    (∀ (is : Injections) (t : Ty), is.contains t = true ↔ t ∈ is.types) ∧
    (∀ (sets : List Injections) (t : Ty),
      (merge sets).get? t = sets.reverse.findSome? (·.get? t)) ∧
    (∀ a b c : Injections, merge [merge [a, b], c] = merge [a, merge [b, c]]) ∧
    (∀ a : Injections, merge [.empty, a] = a ∧ merge [a, .empty] = a ∧ merge [a, a] = a) ∧
    (∀ ps : List (List Injected × Injections), (∀ p ∈ ps, p.1.Perm p.2.entries) → ∀ t,
      (TypeMap.ofList (ps.flatMap (·.1))).get? t = (merge (ps.map (·.2))).get? t) ∧
    ∀ (b : Binding σ), b.filters = [] → ∀ call : Injections,
      (∀ args slots, b.assemble (b.merged call) args = .ok slots →
        ∀ (p : Nat) (t : Ty), b.slots[p]? = some (t, true) →
          ∃ a, b.received call t = some a ∧ slots[p]? = some (.injected ⟨t, a⟩)) ∧
      (∀ context returns run, b.callable = .handler context returns run → ∀ cs args s,
        (invoke b cs call args).result s = match b.received call context with
          | none => (.error (.missingInjection .handler 0 context), s)
          | some a =>
            (firstOf (returns.intoValues ((run a).result s).1), ((run a).result s).2)) ∧
      ∀ op, b.callable.operation? = some op →
        (∀ cs args s s₁ as, Follows b op cs call args s (.ran as) s₁ →
          ∀ (p : Nat) (t : Ty), b.slots[p]? = some (t, true) →
            ∃ a a', b.received call t = some a ∧ t.accept a = some a' ∧
              as.items[p]? = some ⟨t, a'⟩) ∧
        ∀ call' : Injections, (∀ t, (t, true) ∈ b.slots → call.get? t = call'.get? t) →
          ∀ cs args, invoke b cs call args = invoke b cs call' args := by
  refine ⟨fun es t => TypeMap.Edit.get?_foldl_apply .empty es t,
    fun is i => TypeMap.mem_entries_iff, fun is t => TypeMap.contains_iff, TypeMap.get?_merge,
    fun a b c => ?_, fun a => ⟨?_, ?_, ?_⟩, fun ps h => TypeMap.get?_insertMany_flatMap h,
    fun b hf call => ⟨fun args slots ha p t => Binding.slot_received ha,
      fun context returns run hb cs => Binding.invoke_handler hb hf cs call,
      fun op hop => ⟨fun cs args s s₁ as h p t => h.received hop hf,
        fun call' hagree cs args => ?_⟩⟩⟩
  · calc merge [merge [a, b], c] = merge ([a, b] ++ [c]) := by
          rw [TypeMap.merge_append, TypeMap.merge_single c]
      _ = merge ([a] ++ [b, c]) := rfl
      _ = merge [a, merge [b, c]] := by rw [TypeMap.merge_append, TypeMap.merge_single a]
  · rw [TypeMap.merge_pair, TypeMap.empty_extend]
  · rw [TypeMap.merge_pair, TypeMap.extend_empty]
  · rw [TypeMap.merge_pair, TypeMap.extend_self]
  · rw [Binding.invoke_of_no_filters hf, Binding.invoke_of_no_filters hf,
      Binding.carryOut_congr hop hagree]

/-- Takes a token, a name and a number, and gives back the name. -/
def serving : Operation Unit where
  params := [.token, .name, .i64]
  returns := .typed .name
  run as := pure as.2.1

/-- The function at a desk, with a token of its own. -/
def desk : Binding Unit :=
  (Binding.ofCallable ⟨"Desk", "serve"⟩ (.function serving)).inject ⟨.token, "day"⟩

/-- A call with another token and with a name that is not the desk's. -/
def forgedCall : Injections := .ofList [⟨.name, ⟨"Vault", "open"⟩⟩, ⟨.token, "night"⟩]

/-- The token of the call goes in and the forged name does not. A number among the injections does
not stand in for the argument that is missing. -/
theorem desk_keeps_its_name :
    desk.received forgedCall .token = some "night" ∧
    desk.assemble (desk.merged forgedCall) [.integer 7] = .ok [.injected ⟨.token, "night"⟩,
      .injected ⟨.name, ⟨"Desk", "serve"⟩⟩, .supplied (.integer 7)] ∧
    desk.received forgedCall .name = some ⟨"Desk", "serve"⟩ ∧
    invoke desk .empty forgedCall [] =
      invoke desk .empty (forgedCall.insert .i64 (.wrap .i64 7)) [] ∧
    ((invoke desk .empty forgedCall []).result ()).1 =
      .error (.argumentCount (.binding ⟨"Desk", "serve"⟩) 1 0 2) ∧
    (TypeMap.ofList (forgedCall.entries.reverse ++ desk.singletons.entries)).get? .token =
      some "day" ∧
    (invoke (Binding.ofCallable ⟨"Desk", "who"⟩ (.handler .name (.typed .name) pure)) .empty
      forgedCall [.null]).result () =
        (.ok (Ty.name.encode ⟨"Desk", "who"⟩), ()) := by
  have hall := injections_merge_and_precede (σ := Unit)
  have hdesk := hall.2.2.2.2.2.2.2 desk rfl forgedCall
  have hassembled : desk.assemble (desk.merged forgedCall) [.integer 7] =
      .ok [.injected ⟨.token, "night"⟩, .injected ⟨.name, ⟨"Desk", "serve"⟩⟩,
        .supplied (.integer 7)] := rfl
  have hslot := hdesk.1 _ _ hassembled
  refine ⟨?_, hassembled, ?_, ?_, rfl, ?_, ?_⟩
  · obtain ⟨a, ha, hs⟩ := hslot 0 .token rfl
    cases hs
    exact ha
  · obtain ⟨a, ha, hs⟩ := hslot 1 .name rfl
    cases hs
    exact ha
  · refine (hdesk.2.2 serving rfl).2 _ (fun t ht => ?_) .empty []
    have hne : Ty.i64 ≠ t := by
      rintro rfl
      revert ht
      decide
    exact (TypeMap.get?_insert_of_ne forgedCall _ hne).symm
  · have hmerged := hall.2.2.2.2.2.2.1
      [(forgedCall.entries.reverse, forgedCall), (desk.singletons.entries, desk.singletons)]
      (by
        intro p hp
        rcases List.mem_cons.1 hp with rfl | hp
        · exact List.reverse_perm _
        · rw [List.mem_singleton.1 hp]) .token
    have hentries : [(forgedCall.entries.reverse, forgedCall),
        (desk.singletons.entries, desk.singletons)].flatMap (·.1) =
          forgedCall.entries.reverse ++ desk.singletons.entries := rfl
    rw [← hentries, hmerged]
    rfl
  · have hwho := hall.2.2.2.2.2.2.2
      (Binding.ofCallable ⟨"Desk", "who"⟩ (.handler .name (.typed .name) pure)) rfl forgedCall
    exact hwho.2.1 .name (.typed .name) pure rfl .empty [.null] ()

end BindingRegistry
