import BindingRegistry.Proofs.Remote.Forwarding
import BindingRegistry.Remote.Local

/-!
Proxies in a row. Each hop forwards a call to the next registry with the
arguments and the caller as they came, and hands the answer back: a value as it
is, an error inside one of its own. A row of any length is one call of the
binding at its end, with an error inside as many others as there are hops.
-/
namespace BindingRegistry

variable {σ : Type}

/-- Under `n`, `r` holds an unfiltered proxy of `m` in `next`, and neither a default of its own nor
a converter concerns the arguments or the caller that it forwards. -/
structure Hop (r : Registry σ) (n : QualifiedName) (next : Registry σ) (m : QualifiedName) :
    Prop where
  reachable : r.Reachable
  proxy : ∃ b p, r.lookup n = some b ∧ b.callable = .proxy p ∧ b.filters = [] ∧
    p.transport = .toRegistry next ∧ p.interface = m.interface ∧ p.method = m.method ∧
    b.singletons.contains .bundle = false ∧ b.singletons.contains .caller = false
  converters : r.converters.contains .bundle = false

inductive Hops (target : Registry σ) (m : QualifiedName) :
    Nat → Registry σ → QualifiedName → Prop where
  | arrived : Hops target m 0 target m
  | hop {k : Nat} {r next : Registry σ} {n n' : QualifiedName} :
    Hop r n next n' → Hops target m k next n' → Hops target m (k + 1) r n

/-- The error inside as many errors of forwarded calls. -/
def InvokeError.wrapped : Nat → InvokeError → InvokeError
  | 0, e => e
  | k + 1, e => .relayed (e.wrapped k)

theorem message_relayed (e : InvokeError) :
    (InvokeError.relayed e).message = "remote call failed: " ++ e.message := rfl

theorem wrapped_message (k : Nat) (e : InvokeError) :
    (e.wrapped k).message =
      String.join (List.replicate k "remote call failed: ") ++ e.message := by
  induction k with
  | zero => rw [InvokeError.wrapped, List.replicate_zero, String.join_nil, String.empty_append]
  | succ k ih =>
    rw [InvokeError.wrapped, message_relayed, ih, List.replicate_succ, String.join_cons,
      String.append_assoc]

/-- The answer of the far side, handed back over a number of hops. -/
def handedBack (k : Nat) (answer : Except InvokeError Value × σ) : Except InvokeError Value × σ :=
  (answer.1.mapError (InvokeError.wrapped k), answer.2)

theorem handedBack_zero (answer : Except InvokeError Value × σ) : handedBack 0 answer = answer := by
  rcases answer with ⟨e | v, s⟩
  · rfl
  · rfl

theorem handedBack_succ (k : Nat) (answer : Except InvokeError Value × σ) :
    handedBack (k + 1) answer = handedBack 1 (handedBack k answer) := by
  rcases answer with ⟨e | v, s⟩
  · rfl
  · rfl

/-- The caller is what travels. -/
theorem get?_farInjections (context : Option Caller) :
    (farInjections context).get? .caller = context := by
  cases context with
  | none => rfl
  | some c => rfl

theorem nearSide_toRegistry (target : Registry σ) (c : RemoteCall) (s : σ) :
    nearSide ((Transport.toRegistry target c).result s) = handedBack 1
      ((target.invoke ⟨c.interface, c.method⟩ (farInjections c.context) c.args).result s) := by
  simp only [Transport.toRegistry, Action.result_bind, nearSide, handedBack]
  cases ((target.invoke ⟨c.interface, c.method⟩ (farInjections c.context) c.args).result s).1 with
  | error e => rfl
  | ok v => rfl

theorem get?_of_contains_false {β : Ty → Type u} {m : TypeMap β} {t : Ty}
    (h : m.contains t = false) : m.get? t = none := by
  simpa [TypeMap.contains] using h

/-- A hop is the call of the next binding with the caller alone. -/
theorem Hop.result {r next : Registry σ} {n m : QualifiedName} (h : Hop r n next m)
    (call : Injections) (args : List Value) (s : σ) :
    (r.invoke n call args).result s =
      handedBack 1 ((next.invoke m (farInjections (call.get? .caller)) args).result s) := by
  obtain ⟨b, p, hb, hp, hfs, htransport, hi, hmethod, hbundle, hcaller⟩ := h.proxy
  have hm : b.Marked := h.reachable.marked n b hb
  have hc : ChainRun b.outline b.filters (b.merged call) s true (b.merged call) s := by
    rw [hfs]
    exact .done _ _
  have hcontext : (b.merged call).get? .caller = call.get? .caller := by
    rw [Binding.get?_merged, dif_neg (by decide), get?_of_contains_false hcaller, Option.or_none]
  have hargs : r.converters.bundled args = args :=
    bundled_of_none (get?_of_contains_false h.converters) args
  rw [Registry.invoke_of_lookup hb, invoke_forwarded hm hp hbundle r.converters args hc, hargs,
    htransport, nearSide_toRegistry, Proxy.request, hcontext, hi, hmethod]

/-- A call that carries the caller alone comes through any number of hops. -/
theorem Hops.result {target r : Registry σ} {m n : QualifiedName} {k : Nat}
    (h : Hops target m k r n) (context : Option Caller) (args : List Value) (s : σ) :
    (r.invoke n (farInjections context) args).result s =
      handedBack k ((target.invoke m (farInjections context) args).result s) := by
  induction h with
  | arrived => rw [handedBack_zero]
  | @hop k r next n n' hhop _ ih => rw [hhop.result, get?_farInjections, ih, ← handedBack_succ]

/-- A call over one hop or more ends as the call of the last binding with the caller alone: in the
same value, or in the same error inside one more for each hop. Nothing else that is injected into
it matters. -/
theorem hops_transparent {target r : Registry σ} {m n : QualifiedName} {k : Nat}
    (h : Hops target m (k + 1) r n) (call : Injections) (args : List Value) (s : σ) :
    (∀ v s', (target.invoke m (farInjections (call.get? .caller)) args).result s = (.ok v, s') →
      (r.invoke n call args).result s = (.ok v, s')) ∧
    (∀ e s', (target.invoke m (farInjections (call.get? .caller)) args).result s = (.error e, s') →
      (r.invoke n call args).result s = (.error (e.wrapped (k + 1)), s') ∧
      (e.wrapped (k + 1)).message =
        String.join (List.replicate (k + 1) "remote call failed: ") ++ e.message) ∧
    ∀ call' : Injections, call'.get? .caller = call.get? .caller →
      (r.invoke n call' args).result s = (r.invoke n call args).result s := by
  have hresult (call : Injections) : (r.invoke n call args).result s = handedBack (k + 1)
      ((target.invoke m (farInjections (call.get? .caller)) args).result s) := by
    cases h with
    | hop hhop hrest => rw [hhop.result, hrest.result, ← handedBack_succ]
  refine ⟨fun v s' hv => ?_, fun e s' he => ⟨?_, wrapped_message (k + 1) e⟩, fun call' hcall => ?_⟩
  · rw [hresult, hv]
    rfl
  · rw [hresult, he]
    rfl
  · rw [hresult, hresult, hcall]

/-- A registry whose only binding stands for `m` in `next`. -/
def standIn (next : Registry σ) (m : QualifiedName) : Registry σ :=
  (Builder.registryOf [.defaultConverters false]).value.apply
    (.register ⟨"Near", "call"⟩ (.proxy
      { endpoint := ⟨"http".toList, some { host := "far.local".toList }, ['/'], none, none⟩
        interface := m.interface
        method := m.method
        signature := ""
        transport := .toRegistry next }))

theorem hop_standIn (next : Registry σ) (m : QualifiedName) :
    Hop (standIn next m) ⟨"Near", "call"⟩ next m where
  reachable := .changed _ (.built _)
  proxy := ⟨_, _, rfl, rfl, rfl, rfl, rfl, rfl, rfl, rfl⟩
  converters := rfl

def ledgerRegistry : Registry (List (Word .i64)) :=
  (Builder.registryOf [.defaultConverters false]).value.apply
    (.register ⟨"Ledger", "note"⟩ (.method noting))

/-- Two hops to the ledger give back what it notes, and two hops to a name that it does not have
give an error of the second registry inside one of the first. -/
theorem two_hops_to_ledger :
    ((standIn (standIn ledgerRegistry ⟨"Ledger", "note"⟩) ⟨"Near", "call"⟩).invoke
      ⟨"Near", "call"⟩ .empty [.integer 7]).result [] = (.ok (.integer 7), [.wrap .i64 7]) ∧
    ((standIn (standIn ledgerRegistry ⟨"Ledger", "gone"⟩) ⟨"Near", "call"⟩).invoke
      ⟨"Near", "call"⟩ .empty [.integer 7]).result [] =
        (.error (.relayed (.relayed (.notFound ⟨"Ledger", "gone"⟩))), []) := by
  have hops (m : QualifiedName) : Hops ledgerRegistry m 2
      (standIn (standIn ledgerRegistry m) ⟨"Near", "call"⟩) ⟨"Near", "call"⟩ :=
    .hop (hop_standIn _ _) (.hop (hop_standIn _ _) .arrived)
  constructor
  · exact (hops_transparent (hops ⟨"Ledger", "note"⟩) .empty [.integer 7] []).1 _ _ rfl
  · exact ((hops_transparent (hops ⟨"Ledger", "gone"⟩) .empty [.integer 7] []).2.1 _ _ rfl).1

end BindingRegistry
