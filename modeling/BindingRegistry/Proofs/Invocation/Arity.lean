import BindingRegistry.Proofs.Registry.Marks

/-!
How many arguments a call takes. The signature of a function or a method has
one code for each parameter that is not injected, and a call is given as many
arguments as the signature has codes: with fewer or more it ends in the error of
the count, with that many it never does. Getters and handlers have no signature
and look at no argument.
-/
namespace BindingRegistry

variable {σ : Type}

section

variable {whom : Culprit} {countError : InvokeError} {is : Injections}

theorem Filled.args_length {ps : List (Ty × Bool)} {args : List Value} {slots : List Slot}
    (h : Filled is ps args slots) : args.length = (unmarked ps).length := by
  induction h with
  | nil => rfl
  | injected _ _ ih => simpa using ih
  | supplied _ _ _ ih => simpa using ih

/-- Where every marked parameter finds a value, one argument for each of the others is enough. -/
theorem exists_fill {i : Nat} {ps : List (Ty × Bool)} {args : List Value}
    (found : ∀ t, (t, true) ∈ ps → is.contains t = true)
    (h : args.length = (unmarked ps).length) :
    ∃ slots, Binding.fill whom countError is i ps args = .ok slots := by
  fun_induction Binding.fill whom countError is i ps args with
  | case1 => exact ⟨[], rfl⟩
  | case2 v args => simp at h
  | case3 i t ps args ht =>
    have hfound := found t List.mem_cons_self
    rw [TypeMap.contains, ht] at hfound
    cases hfound
  | case4 i t ps args a ha ih =>
    obtain ⟨slots, hslots⟩ := ih (fun t ht => found t (List.mem_cons_of_mem _ ht)) (by simpa using h)
    exact ⟨_, by rw [hslots]; rfl⟩
  | case5 t ps => simp at h
  | case6 i t ps v args ih =>
    obtain ⟨slots, hslots⟩ := ih (fun t ht => found t (List.mem_cons_of_mem _ ht)) (by simpa using h)
    exact ⟨_, by rw [hslots]; rfl⟩

/-- Any other number of arguments is the error of the count. -/
theorem fill_eq_countError {i : Nat} {ps : List (Ty × Bool)} {args : List Value}
    (found : ∀ t, (t, true) ∈ ps → is.contains t = true)
    (h : args.length ≠ (unmarked ps).length) :
    Binding.fill whom countError is i ps args = .error countError := by
  cases hfill : Binding.fill whom countError is i ps args with
  | ok slots => exact absurd (filled_of_fill hfill).args_length h
  | error e =>
    rcases fill_error hfill with ⟨p, t, hp, hnone, -⟩ | rfl
    · have hfound := found t (List.mem_of_getElem? hp)
      rw [TypeMap.contains, hnone] at hfound
      cases hfound
    · rfl

end

/-- Every parameter is marked or takes an argument. -/
theorem length_unmarked_zip {ts : List Ty} {ms : List Bool} (h : ms.length = ts.length) :
    (unmarked (ts.zip ms)).length + ms.count true = ts.length := by
  induction ts generalizing ms with
  | nil =>
    obtain rfl : ms = [] := by simpa using h
    rfl
  | cons t ts ih =>
    cases ms with
    | nil => simp at h
    | cons m ms =>
      have hrest := @ih ms (by simpa using h)
      cases m with
      | false =>
        simp only [List.zip_cons_cons, unmarked_cons_false, List.count_cons_of_ne Bool.false_ne_true,
          List.length_cons]
        omega
      | true =>
        simp only [List.zip_cons_cons, unmarked_cons_true, List.count_cons_self, List.length_cons]
        omega

namespace Binding

variable {b : Binding σ}

theorem visible_length_add (b : Binding σ) :
    b.visible.length + b.injectedCount = b.params.length := by
  rw [visible, List.length_map]
  exact length_unmarked_zip b.marks_length

theorem length_unmarked_slots (b : Binding σ) :
    (unmarked b.slots).length = b.visible.length := by
  rw [visible, List.length_map, unmarked]

theorem countError_eq (b : Binding σ) (supplied : Nat) : b.countError supplied =
    .argumentCount (.binding b.name) b.visible.length supplied b.injectedCount := by
  have hlen := b.visible_length_add
  have hexpected : b.params.length - b.injectedCount = b.visible.length := by omega
  rw [countError, hexpected]

/-- The parameters left to a caller are those whose type is not injected. -/
theorem Marked.visible_eq (h : b.Marked) :
    b.visible = b.params.filter (fun t => !b.injects t) := by
  rw [visible, slots, h.marks]
  induction b.params with
  | nil => rfl
  | cons t ts ih => cases hi : b.injects t <;> simpa [hi] using ih

end Binding

theorem length_signatureOf (ts : List Ty) : (signatureOf ts).length = ts.length := by
  simp [signatureOf]

section

variable {b : Binding σ} {op : Operation σ} {call is : Injections} {args : List Value} {s s₁ : σ}

theorem signature_of_operation (hop : b.callable.operation? = some op) :
    b.signature = signatureOf b.visible := by
  rcases Callable.eq_of_operation hop with h | h <;> rw [Binding.signature, h] <;> rfl

theorem length_signature_of_operation (hop : b.callable.operation? = some op) :
    b.signature.length = b.visible.length := by
  rw [signature_of_operation hop, length_signatureOf]

theorem countError_of_operation (hop : b.callable.operation? = some op) (supplied : Nat) :
    b.countError supplied =
      .argumentCount (.binding b.name) b.signature.length supplied b.injectedCount := by
  rw [b.countError_eq, length_signature_of_operation hop]

/-- In injections that hold what a call started with, every marked parameter finds a value. -/
theorem Binding.Marked.found (hm : b.Marked) (hk : Covers (b.merged call) is) (t : Ty)
    (ht : (t, true) ∈ b.slots) : is.contains t = true := by
  obtain ⟨p, hp⟩ := List.mem_iff_getElem?.1 ht
  exact hk t (hm.contains_merged call hp)

def InvokeError.IsCount : InvokeError → Prop
  | .argumentCount .. => True
  | _ => False

theorem FirstFault.not_isCount {cs : Converters} {k p : Nat} {ts : List Ty} {slots : List Slot}
    {e : InvokeError} (h : FirstFault cs k ts slots p e) : ¬ e.IsCount := by
  obtain ⟨t, slot, -, -, hf⟩ := h.fault
  cases hf with
  | supplied _ => exact id
  | injected _ => exact id

theorem InvokeError.OfRun.not_isCount {e : InvokeError} (h : e.OfRun) : ¬ e.IsCount := by
  cases e with
  | callable | unwritable => exact id
  | _ => exact h.elim

/-- Another number of arguments than the signature has codes is refused. -/
theorem invoke_miscounted (hop : b.callable.operation? = some op) (hm : b.Marked) (cs : Converters)
    (hc : ChainRun b.outline b.filters (b.merged call) s true is s₁)
    (hk : Covers (b.merged call) is) (hlen : args.length ≠ b.signature.length) :
    (invoke b cs call args).result s =
      (.error (.argumentCount (.binding b.name) b.signature.length args.length b.injectedCount),
        s₁) := by
  have ha : b.assemble is args = .error (b.countError args.length) :=
    fill_eq_countError (hm.found hk)
      (by rwa [b.length_unmarked_slots, ← length_signature_of_operation hop])
  rw [← countError_of_operation hop]
  exact (Follows.unassembled hc ha : Follows b op cs call args s _ s₁).result hop

/-- As many arguments as the signature has codes are never refused for their number. -/
theorem not_isCount_of_invoke {cs : Converters} {e : InvokeError}
    (hop : b.callable.operation? = some op) (hm : b.Marked)
    (hc : ChainRun b.outline b.filters (b.merged call) s true is s₁)
    (hk : Covers (b.merged call) is) (hlen : args.length = b.signature.length)
    (he : ((invoke b cs call args).result s).1 = .error e) : ¬ e.IsCount := by
  obtain ⟨slots, ha⟩ : ∃ slots, b.assemble is args = .ok slots :=
    exists_fill (hm.found hk)
      (by rwa [b.length_unmarked_slots, ← length_signature_of_operation hop])
  have hslots : slots.length = op.params.length :=
    (assemble_length ha).trans (congrArg List.length (Callable.params_of_operation hop))
  rcases fits_or_firstFault cs 0 hslots with ⟨as, hfits⟩ | ⟨p, e', hf⟩
  · have hran : Follows b op cs call args s (.ran as) s₁ := .ran hc ha hfits
    rw [hran.result hop] at he
    rcases Follows.error he with h | hrun
    · cases h
    · exact hrun.not_isCount
  · have huntaken : Follows b op cs call args s (.refused e') s₁ := .untaken hc ha hf
    rw [huntaken.result hop] at he
    obtain rfl : e' = e := by simpa [Course.ending] using he
    exact hf.not_isCount

/-- An operation takes no more slots than it has. -/
theorem ne_callable_of_invoke {cs : Converters} (hop : b.callable.operation? = some op)
    (expected supplied injected : Nat) : ((invoke b cs call args).result s).1 ≠
      .error (.argumentCount .callable expected supplied injected) := by
  intro he
  obtain ⟨course, s₁, h⟩ := exists_follows hop cs call args s
  rw [h.result hop] at he
  rcases Follows.error he with rfl | hrun
  · obtain ⟨is, -, hrefusal⟩ := h.refusal hop
    rcases hrefusal.located with h | ⟨p, t, -, h | ⟨cause, h⟩ | ⟨found, h⟩⟩
    · cases h
    · cases h
    · cases h
    · cases h
  · exact hrun.elim

end

/-- Where no argument is taken the arguments do not matter. -/
theorem invoke_takes_none {b : Binding σ} (hb : b.callable.takesArguments = false)
    (cs : Converters) (call : Injections) (args args' : List Value) (s : σ) :
    (invoke b cs call args).result s = (invoke b cs call args').result s := by
  have hprepare (is : Injections) (args : List Value) (s : σ) :
      (b.prepare is args).result s = (.ok [], s) := by
    rw [Binding.prepare, hb]
    cases args with
    | nil => rfl
    | cons v args => rfl
  simp only [invoke, Action.result_bind, Action.result_log]
  split
  · simp only [Action.result_bind, hprepare]
  · rfl

/-- In every registry that can be reached, the signature of a function or a method has the codes of
the parameters that are not injected, and its length is the only number of arguments that a call
which keeps its injections accepts. For getters and handlers the signature is empty and a call
ends the same whatever its arguments are. -/
theorem reachable_signature_counts_arguments {r : Registry σ} (hr : r.Reachable) {n : QualifiedName}
    {b : Binding σ} (hb : r.lookup n = some b) :
    (b.kind = .function ∨ b.kind = .method →
      b.signature.toList = b.visible.map (·.coarse.code) ∧
      b.visible = b.params.filter (fun t => !b.injects t) ∧
      b.signature.length + b.injectedCount = b.params.length ∧
      (∀ cs call args s is s₁, ChainRun b.outline b.filters (b.merged call) s true is s₁ →
        Covers (b.merged call) is →
        ((∃ e, ((invoke b cs call args).result s).1 = .error e ∧ e.IsCount) ↔
          args.length ≠ b.signature.length) ∧
        ∀ e, ((invoke b cs call args).result s).1 = .error e → e.IsCount →
          e = .argumentCount (.binding b.name) b.signature.length args.length b.injectedCount) ∧
      ∀ cs call args s expected supplied injected, ((invoke b cs call args).result s).1 ≠
        .error (.argumentCount .callable expected supplied injected)) ∧
    ((∃ returns get, b.callable = .getter returns get) ∨
        (∃ context returns run, b.callable = .handler context returns run) →
      b.signature = "" ∧ ∀ cs call args args' s,
        (invoke b cs call args).result s = (invoke b cs call args').result s) := by
  have hm : b.Marked := hr.marked n b hb
  constructor
  · intro hkind
    obtain ⟨op, hop⟩ := Callable.exists_operation hkind
    refine ⟨?_, hm.visible_eq, ?_, fun cs call args s is s₁ hc hk => ?_,
      fun _ _ _ _ => ne_callable_of_invoke hop⟩
    · rw [signature_of_operation hop, signatureOf, String.toList_ofList]
    · rw [length_signature_of_operation hop, b.visible_length_add]
    · by_cases hlen : args.length = b.signature.length
      · have hnot : ∀ e, ((invoke b cs call args).result s).1 = .error e → ¬ e.IsCount :=
          fun e => not_isCount_of_invoke hop hm hc hk hlen
        exact ⟨⟨fun ⟨e, he, hcount⟩ => absurd hcount (hnot e he), fun h => absurd hlen h⟩,
          fun e he hcount => absurd hcount (hnot e he)⟩
      · have hresult := invoke_miscounted hop hm cs hc hk hlen
        rw [hresult]
        refine ⟨⟨fun _ => hlen, fun _ => ⟨_, rfl, trivial⟩⟩, fun e he _ => ?_⟩
        cases he
        rfl
  · rintro (⟨returns, get, hg⟩ | ⟨context, returns, run, hh⟩)
    · have hvisible : b.visible = [] := by
        have hlen := b.visible_length_add
        rw [Binding.params, hg] at hlen
        exact List.length_eq_zero_iff.1 (Nat.eq_zero_of_add_eq_zero_right hlen)
      refine ⟨?_, invoke_takes_none (by rw [hg]; rfl)⟩
      rw [Binding.signature, hvisible, hg]
      rfl
    · refine ⟨?_, invoke_takes_none (by rw [hh]; rfl)⟩
      rw [Binding.signature, hh]
      rfl

/-- Takes a number, a token and a text, and gives back the number. -/
def ringing : Operation Unit where
  params := [.i64, .token, .string]
  returns := .typed .i64
  run as := pure as.1

/-- A till with a token for all bindings, a filter on its only method and a getter. -/
def tillRegistry : Registry Unit :=
  (((Builder.registryOf [.defaultConverters false, .global ⟨.token, "t"⟩]).value.apply
    (.register ⟨"Till", "ring"⟩ (.method ringing))).apply
      (.adjust ⟨"Till", "ring"⟩ (.addFilter (.counting id)))).apply
        (.register ⟨"Till", "open"⟩ (.getter (.typed .bool) (pure true)))

/-- The method takes two arguments, and one is an error; the getter takes no notice of any. -/
theorem till_counts_arguments : ∃ ring shut,
    tillRegistry.lookup ⟨"Till", "ring"⟩ = some ring ∧
    tillRegistry.lookup ⟨"Till", "open"⟩ = some shut ∧ ring.signature.toList = ['i', 's'] ∧
    ((invoke ring .empty .empty [.integer 7]).result ()).1 =
      .error (.argumentCount (.binding ⟨"Till", "ring"⟩) 2 1 1) ∧
    (¬ ∃ e, ((invoke ring .empty .empty [.integer 7, .null]).result ()).1 = .error e ∧ e.IsCount) ∧
    shut.signature = "" ∧ (invoke shut .empty .empty [.null]).result () = (.ok (.bool true), ()) := by
  have hr : tillRegistry.Reachable := .changed _ (.changed _ (.changed _ (.built _)))
  obtain ⟨ring, hring⟩ : ∃ b, tillRegistry.lookup ⟨"Till", "ring"⟩ = some b := ⟨_, rfl⟩
  obtain ⟨shut, hshut⟩ : ∃ b, tillRegistry.lookup ⟨"Till", "open"⟩ = some b := ⟨_, rfl⟩
  have hc : ChainRun ring.outline ring.filters (ring.merged .empty) () true (ring.merged .empty)
      () := by
    cases hring
    exact .next rfl (.done _ _)
  have hkind : ring.kind = .function ∨ ring.kind = .method := by
    cases hring
    exact .inr rfl
  have hgetter : ∃ returns get, shut.callable = .getter returns get := by
    cases hshut
    exact ⟨_, _, rfl⟩
  obtain ⟨hcodes, -, -, hcount, -⟩ :=
    (reachable_signature_counts_arguments hr hring).1 hkind
  obtain ⟨hempty, hsame⟩ := (reachable_signature_counts_arguments hr hshut).2 (.inl hgetter)
  have hcodes' : ring.signature.toList = ['i', 's'] := by
    rw [hcodes]
    cases hring
    rfl
  have hlen : ring.signature.length = 2 := by rw [← String.length_toList, hcodes']; rfl
  have hone := hcount .empty .empty [.integer 7] () _ _ hc fun _ ht => ht
  have htwo := hcount .empty .empty [.integer 7, .null] () _ _ hc fun _ ht => ht
  refine ⟨ring, shut, hring, hshut, hcodes', ?_, ?_, hempty, ?_⟩
  · obtain ⟨e, he, hcounts⟩ := hone.1.2 (by rw [hlen]; decide)
    rw [he, hone.2 e he hcounts, hlen]
    cases hring
    rfl
  · rw [htwo.1, hlen]
    decide
  · rw [hsame .empty .empty [.null] [] ()]
    cases hshut
    rfl

end BindingRegistry
