import BindingRegistry.Proofs.Registry.Marks

/-!
What a proxy forwards. The arguments of its caller travel as one list, through
a parameter like any other: a default of that type takes the place of the list,
and a converter for the type may change it. Where neither is there, a call that
passes the filters is forwarded once, as the caller made it.
-/
namespace BindingRegistry

variable {σ : Type}

abbrev Ty.bundle : Ty := .list .value

/-- What the converters make of a caller's arguments when they are taken together. -/
def Converters.bundled (cs : Converters) (args : List Value) : List Value :=
  (cs.attempt .bundle (.array args)).value.getD args

/-- Without a converter for lists of values the arguments stay as they are. -/
theorem bundled_of_none {cs : Converters} (h : cs.get? .bundle = none) (args : List Value) :
    cs.bundled args = args := by
  simp [Converters.bundled, Converters.attempt, h]

theorem decode_bundle (args : List Value) : Ty.decode .bundle (.array args) = .ok args := by
  change args.mapM (fun v => (pure v : Except ConvertError Value)) = pure args
  rw [List.mapM_pure, List.map_id']

/-- Bundled arguments can always be taken. -/
theorem convert_bundle (cs : Converters) (args : List Value) :
    (cs.convert .bundle (.array args)).value = .ok (cs.bundled args) := by
  rw [Converters.convert, Logged.value_bind, Converters.bundled]
  cases (cs.attempt .bundle (.array args)).value with
  | none => simp [Converters.coerce, decode_bundle]
  | some a => rfl

namespace Proxy

/-- The call that a proxy makes, with the caller that the injections know of. -/
def request (p : Proxy σ) (args : List Value) (is : Injections) : RemoteCall :=
  ⟨p.endpoint, p.interface, p.method, args, is.get? .caller⟩

theorem request_inj (p : Proxy σ) {args args' : List Value} {is : Injections} :
    p.request args is = p.request args' is ↔ args = args' := by
  simp [request]

end Proxy

/-- The answer to a forwarded call as the near side gives it. -/
def nearSide (answer : Except TransportError Value × σ) : Except InvokeError Value × σ :=
  (answer.1.mapError TransportError.toInvokeError, answer.2)

/-- The error of a proxy whose arguments have lost their parameter to an injection. -/
def Binding.displaced (b : Binding σ) (is : Injections) : InvokeError :=
  if is.contains .bundle then .argumentCount (.binding b.name) 0 1 1
  else .missingInjection (.binding b.name) 0 .bundle

section

variable {b : Binding σ} {p : Proxy σ} {call is : Injections} {s s₁ : σ}

theorem params_of_proxy (hp : b.callable = .proxy p) : b.params = [.bundle] := by
  rw [Binding.params, hp]
  rfl

theorem takesArguments_of_proxy (hp : b.callable = .proxy p) :
    b.callable.takesArguments = true := by
  rw [hp]
  rfl

/-- The only parameter of a proxy is marked exactly when the binding has a default for it. -/
theorem marks_of_proxy (hm : b.Marked) (hp : b.callable = .proxy p) :
    b.marks = [b.singletons.contains .bundle] := by
  have hparams := params_of_proxy hp
  have hlen : b.marks.length = 1 := by
    rw [b.marks_length]
    exact congrArg List.length hparams
  obtain ⟨m, hmarks⟩ := List.length_eq_one_iff.1 hlen
  have h₀ := hm 0 .bundle (by rw [hparams]; rfl)
  rw [hmarks] at h₀ ⊢
  congr 1
  rw [Bool.eq_iff_iff]
  simpa using h₀

theorem slots_of_proxy (hm : b.Marked) (hp : b.callable = .proxy p) :
    b.slots = [(.bundle, b.singletons.contains .bundle)] := by
  rw [Binding.slots, marks_of_proxy hm hp, params_of_proxy hp]
  rfl

theorem assemble_forwarded (hm : b.Marked) (hp : b.callable = .proxy p)
    (hs : b.singletons.contains .bundle = false) (is : Injections) (args : List Value) :
    b.assemble is (b.callable.bundle args) = .ok [.supplied (.array args)] := by
  rw [Binding.assemble, slots_of_proxy hm hp, hs, hp]
  rfl

theorem assemble_displaced (hm : b.Marked) (hp : b.callable = .proxy p)
    (hs : b.singletons.contains .bundle = true) (is : Injections) (args : List Value) :
    b.assemble is (b.callable.bundle args) = .error (b.displaced is) := by
  have hcount : b.countError 1 = .argumentCount (.binding b.name) 0 1 1 := by
    rw [Binding.countError, Binding.injectedCount, marks_of_proxy hm hp, hs, params_of_proxy hp]
    rfl
  rw [Binding.assemble, slots_of_proxy hm hp, hs, hp, Binding.displaced, TypeMap.contains]
  simp only [Callable.bundle, List.length_singleton, hcount, Binding.fill]
  cases is.get? .bundle with
  | none => rfl
  | some a => rfl

theorem take_bundle (cs : Converters) (args : List Value) :
    (ArgVector.take cs .bundle { slots := [.supplied (.array args)] }).value =
      .ok (cs.bundled args, ⟨[], 1⟩) := by
  simp [ArgVector.take, ArgVector.content, convert_bundle]

/-- A proxy with its arguments at hand uses its transport once. -/
theorem Proxy.call_result (p : Proxy σ) (cs : Converters) (args : List Value) (is : Injections)
    (s : σ) : (p.call cs [.supplied (.array args)] is).result s =
      ((nearSide ((p.transport (p.request (cs.bundled args) is)).result s)).1.map ([·]),
        (nearSide ((p.transport (p.request (cs.bundled args) is)).result s)).2) := by
  simp only [Proxy.call, Action.result_bind, Action.result_ofLogged, take_bundle,
    Action.result_log, Proxy.request, nearSide]
  cases ((p.transport ⟨p.endpoint, p.interface, p.method, cs.bundled args,
    is.get? .caller⟩).result s).1 with
  | error e => rfl
  | ok v => rfl

theorem firstOf_single (x : Except InvokeError Value) : firstOf (x.map ([·])) = x := by
  cases x with
  | error e => rfl
  | ok v => rfl

theorem invoke_forwarded (hm : b.Marked) (hp : b.callable = .proxy p)
    (hs : b.singletons.contains .bundle = false) (cs : Converters) (args : List Value)
    (hc : ChainRun b.outline b.filters (b.merged call) s true is s₁) :
    (invoke b cs call args).result s =
      nearSide ((p.transport (p.request (cs.bundled args) is)).result s₁) := by
  have hb := takesArguments_of_proxy hp
  rw [invoke_assembled cs hb hc (assemble_forwarded hm hp hs is args), hp, Callable.call,
    Proxy.call_result, firstOf_single]

theorem invoke_displaced (hm : b.Marked) (hp : b.callable = .proxy p)
    (hs : b.singletons.contains .bundle = true) (cs : Converters) (args : List Value)
    (hc : ChainRun b.outline b.filters (b.merged call) s true is s₁) :
    (invoke b cs call args).result s = (.error (b.displaced is), s₁) := by
  exact invoke_unassembled cs (takesArguments_of_proxy hp) hc (assemble_displaced hm hp hs is args)

end

/-- A call of a proxy that passes the filters is forwarded once with the arguments as the caller
sent them if and only if the binding has no default list of values and no converter makes anything
else of them. What the converters make of them is what is forwarded; a default stops the call. -/
theorem reachable_proxy_forwards_iff {r : Registry σ} (hr : r.Reachable) {n : QualifiedName}
    {b : Binding σ} (hb : r.lookup n = some b) {p : Proxy σ} (hp : b.callable = .proxy p)
    {call is : Injections} {s s₁ : σ}
    (hc : ChainRun b.outline b.filters (b.merged call) s true is s₁) (args : List Value) :
    (r.invoke n call args).result s =
      (if b.singletons.contains .bundle = true then (.error (b.displaced is), s₁)
        else nearSide ((p.transport (p.request (r.converters.bundled args) is)).result s₁)) ∧
    ∀ calls : σ → List RemoteCall, LeaveAlone b.filters calls →
      (∀ c s, calls ((p.transport c).result s).2 = calls s ++ [c]) →
        (calls ((r.invoke n call args).result s).2 = calls s ++ [p.request args is] ↔
          b.singletons.contains .bundle = false ∧ r.converters.bundled args = args) := by
  have hm : b.Marked := hr.marked n b hb
  rw [Registry.invoke_of_lookup hb]
  by_cases hs : b.singletons.contains .bundle = true
  · have hd := invoke_displaced hm hp hs r.converters args hc
    refine ⟨by rw [hd, if_pos hs], fun calls hfs _ => ?_⟩
    rw [hd, hc.part_eq hfs]
    simp [hs]
  · have hf : b.singletons.contains .bundle = false := Bool.not_eq_true _ ▸ hs
    have hfwd := invoke_forwarded hm hp hf r.converters args hc
    refine ⟨by rw [hfwd, if_neg hs], fun calls hfs htransport => ?_⟩
    rw [hfwd, nearSide, htransport, hc.part_eq hfs, List.append_cancel_left_eq, List.cons_eq_cons,
      p.request_inj]
    simp [hf]

/-- A proxy whose transport notes each call in the world. -/
def notedProxy : Proxy (List RemoteCall) where
  endpoint := ⟨"http".toList, some { host := "far.local".toList }, ['/'], none, none⟩
  interface := "Far"
  method := "list"
  signature := "a"
  transport call := Action.onWorld fun calls => (.ok .null, calls ++ [call])

/-- The noted proxy under a name of its own, with a filter that lets every call pass. -/
def notedRegistry : Registry (List RemoteCall) :=
  ((Builder.registryOf [.defaultConverters false]).value.apply
    (.register ⟨"Near", "list"⟩ (.proxy notedProxy))).apply
      (.adjust ⟨"Near", "list"⟩ (.addFilter (.counting id)))

theorem notedRegistry_reachable : notedRegistry.Reachable := .changed _ (.changed _ (.built _))

/-- Without defaults and converters for lists both arguments are forwarded. -/
theorem noted_forwards : ∃ b, notedRegistry.lookup ⟨"Near", "list"⟩ = some b ∧
    b.callable = .proxy notedProxy ∧
    ((notedRegistry.invoke ⟨"Near", "list"⟩ .empty [.integer 1, .null]).result []).2 =
      [notedProxy.request [.integer 1, .null] (b.merged .empty)] := by
  obtain ⟨b, hb⟩ : ∃ b, notedRegistry.lookup ⟨"Near", "list"⟩ = some b := ⟨_, rfl⟩
  have hp : b.callable = .proxy notedProxy := by
    cases hb
    rfl
  have hc : ChainRun b.outline b.filters (b.merged .empty) [] true (b.merged .empty) [] := by
    cases hb
    exact .next rfl (.done _ _)
  have hfs : LeaveAlone b.filters (id : List RemoteCall → List RemoteCall) := by
    cases hb
    intro f hf o is s
    obtain rfl : f = .counting id := List.mem_singleton.1 hf
    rfl
  have hs : b.singletons.contains .bundle = false := by
    cases hb
    rfl
  have hforward := reachable_proxy_forwards_iff notedRegistry_reachable hb hp hc [.integer 1, .null]
  have hcalls := hforward.2 id hfs fun c s => rfl
  exact ⟨b, hb, hp, hcalls.2 ⟨hs, bundled_of_none rfl _⟩⟩

/-- With a list of values declared for all bindings the same proxy forwards nothing, and with a
converter that makes every list empty it forwards no arguments. -/
theorem list_default_or_converter_breaks_forwarding :
    (notedRegistry.apply (.declareGlobal ⟨.bundle, []⟩)).Reachable ∧
    ((notedRegistry.apply (.declareGlobal ⟨.bundle, []⟩)).invoke ⟨"Near", "list"⟩ .empty
      [.integer 1]).result [] = (.error (.argumentCount (.binding ⟨"Near", "list"⟩) 0 1 1), []) ∧
    (notedRegistry.apply (.registerConverter .bundle fun _ => .ok ⟨.bundle, []⟩)).Reachable ∧
    (((notedRegistry.apply (.registerConverter .bundle fun _ => .ok ⟨.bundle, []⟩)).invoke
      ⟨"Near", "list"⟩ .empty [.integer 1]).result []).2.map (·.args.length) = [0] :=
  ⟨.changed _ notedRegistry_reachable, rfl, .changed _ notedRegistry_reachable, rfl⟩

end BindingRegistry
