import BindingRegistry.Proofs.Invocation.Arity

/-!
Injection as partial application. A value that is injected into a function or a
method takes the place of the arguments that are converted to it: the call with
those arguments left out ends as the call with them. The other arguments stay
with their parameters, so an error keeps its position.
-/
namespace BindingRegistry

variable {σ : Type} {cs : Converters}

/-- Slots that are taken alike at every position. -/
inductive Alike (cs : Converters) : List Ty → List Slot → List Slot → Prop where
  | nil : Alike cs [] [] []
  | cons {t : Ty} {ts : List Ty} {slot slot' : Slot} {slots slots' : List Slot} :
    (∀ k, (ArgVector.content cs t k slot).value = (ArgVector.content cs t k slot').value) →
      Alike cs ts slots slots' → Alike cs (t :: ts) (slot :: slots) (slot' :: slots')

theorem Alike.takeAll {ts : List Ty} {slots slots' : List Slot} (h : Alike cs ts slots slots')
    (k : Nat) : (ArgVector.takeAll cs ts ⟨slots, k⟩).value =
      (ArgVector.takeAll cs ts ⟨slots', k⟩).value := by
  induction h generalizing k with
  | nil => rfl
  | @cons t ts slot slot' slots slots' hslot _ ih =>
    simp only [ArgVector.takeAll, ArgVector.take, Logged.value_bind, hslot k]
    cases (ArgVector.content cs t k slot').value with
    | error e => rfl
    | ok a => simp only [Logged.value_pure, Logged.value_bind, ih (k + 1)]

inductive AssembledAlike (cs : Converters) (ts : List Ty) :
    Except InvokeError (List Slot) → Except InvokeError (List Slot) → Prop where
  | error (e : InvokeError) : AssembledAlike cs ts (.error e) (.error e)
  | ok {slots slots' : List Slot} : Alike cs ts slots slots' →
    AssembledAlike cs ts (.ok slots) (.ok slots')

theorem AssembledAlike.cons {t : Ty} {ts : List Ty} {slot slot' : Slot}
    {made made' : Except InvokeError (List Slot)}
    (hslot : ∀ k, (ArgVector.content cs t k slot).value = (ArgVector.content cs t k slot').value)
    (h : AssembledAlike cs ts made made') :
    AssembledAlike cs (t :: ts) ((slot :: ·) <$> made) ((slot' :: ·) <$> made') := by
  cases h with
  | error e => exact .error e
  | ok h => exact .ok (.cons hslot h)

/-- The parameters with those of a type marked as well. -/
def markType (t : Ty) (ps : List (Ty × Bool)) : List (Ty × Bool) :=
  ps.map fun p => (p.1, p.2 || p.1 = t)

theorem markType_cons (t t' : Ty) (m : Bool) (ps : List (Ty × Bool)) :
    markType t ((t', m) :: ps) = (t', m || decide (t' = t)) :: markType t ps := rfl

/-- Of one argument a parameter, those for parameters of other types than `t`. -/
def leftFor (t : Ty) (ts : List Ty) (args : List Value) : List Value :=
  ((ts.zip args).filter fun p => p.1 ≠ t).map (·.2)

theorem leftFor_cons_self (t : Ty) (ts : List Ty) (v : Value) (args : List Value) :
    leftFor t (t :: ts) (v :: args) = leftFor t ts args := by
  simp [leftFor]

theorem leftFor_cons_of_ne {t t' : Ty} (h : t' ≠ t) (ts : List Ty) (v : Value)
    (args : List Value) : leftFor t (t' :: ts) (v :: args) = v :: leftFor t ts args := by
  simp [leftFor, h]

/-- A supplied slot whose argument is converted to an injected value is taken like the value. -/
theorem content_supplied_eq_injected {t : Ty} {w : Value} {a : t.Denote}
    (hw : (cs.convert t w).value = .ok a) (ha : t.accept a = some a) (k : Nat) :
    (ArgVector.content cs t k (.supplied w)).value =
      (ArgVector.content cs t k (.injected ⟨t, a⟩)).value := by
  have hinjected : (Injected.cast? ⟨t, a⟩ t).bind t.accept = some a := by
    simpa [Injected.cast?] using ha
  rw [(Slot.Yields.supplied hw).content, (Slot.Yields.injected hinjected).content]

/-- Where a type that was not injected is, the slots are alike without its arguments, as long as
they are converted to the injected value. -/
theorem fill_markType {whom : Culprit} {countError countError' : InvokeError}
    {is is' : Injections} {t : Ty} {a : t.Denote} {i : Nat} {ps : List (Ty × Bool)}
    {args : List Value} (hother : ∀ t', t' ≠ t → is'.get? t' = is.get? t')
    (hinjected : is'.get? t = some a) (ha : t.accept a = some a) (hps : (t, true) ∉ ps)
    (hlen : args.length = (unmarked ps).length)
    (hargs : ∀ p ∈ ((unmarked ps).map (·.1)).zip args, p.1 = t →
      (cs.convert t p.2).value = .ok a) :
    AssembledAlike cs (ps.map (·.1)) (Binding.fill whom countError is i ps args)
      (Binding.fill whom countError' is' i (markType t ps)
        (leftFor t ((unmarked ps).map (·.1)) args)) := by
  -- A marked parameter is of another type and finds the same value; an unmarked one of type t
  -- gives up its argument, and all others keep theirs.
  fun_induction Binding.fill whom countError is i ps args with
  | case1 => exact .ok .nil
  | case2 v args => simp at hlen
  | case3 i t' ps args hnone =>
    have ht : t' ≠ t := fun h => hps (h ▸ List.mem_cons_self)
    rw [markType_cons, Bool.true_or, Binding.fill, hother t' ht, hnone]
    exact .error _
  | case4 i t' ps args a' ha' ih =>
    have ht : t' ≠ t := fun h => hps (h ▸ List.mem_cons_self)
    rw [markType_cons, Bool.true_or, Binding.fill, hother t' ht, ha']
    exact .cons (fun _ => rfl) (ih (fun h => hps (List.mem_cons_of_mem _ h)) hlen hargs)
  | case5 t' ps => simp at hlen
  | case6 i t' ps w args ih =>
    rw [unmarked_cons_false, List.map_cons, List.zip_cons_cons, List.forall_mem_cons] at hargs
    have hrest := ih (fun h => hps (List.mem_cons_of_mem _ h)) (by simpa using hlen) hargs.2
    simp only [List.map_cons, unmarked_cons_false, markType_cons, Bool.false_or]
    by_cases ht : t' = t
    · subst ht
      rw [decide_eq_true rfl, leftFor_cons_self, Binding.fill, hinjected]
      exact .cons (content_supplied_eq_injected (hargs.1 rfl) ha) hrest
    · rw [decide_eq_false ht, leftFor_cons_of_ne ht, Binding.fill]
      exact .cons (fun _ => rfl) hrest

/-- What a call of an operation comes to when its slots were assembled, or were not. -/
def Operation.ending (op : Operation σ) (cs : Converters) :
    Except InvokeError (List Slot) → σ → Except InvokeError Value × σ
  | .error e, s => (.error e, s)
  | .ok slots, s => (firstOf ((op.call cs slots).result s).1, ((op.call cs slots).result s).2)

theorem AssembledAlike.ending {op : Operation σ} {made made' : Except InvokeError (List Slot)}
    (h : AssembledAlike cs op.params made made') (s : σ) :
    op.ending cs made s = op.ending cs made' s := by
  cases h with
  | error e => rfl
  | @ok slots slots' h =>
    have hcall : (op.call cs slots).result s = (op.call cs slots').result s := by
      simp only [Operation.call, Action.result_bind, Action.result_ofLogged, h.takeAll 0]
    rw [Operation.ending, hcall]
    rfl

/-- Without filters a call is decided by its assembly. -/
theorem invoke_unfiltered {b : Binding σ} {op : Operation σ}
    (hop : b.callable.operation? = some op) (hfilters : b.filters = []) (cs : Converters)
    (call : Injections) (args : List Value) (s : σ) :
    (invoke b cs call args).result s = op.ending cs (b.assemble (b.merged call) args) s := by
  have htakes := Callable.takesArguments_of_operation hop
  have hbundle := Callable.bundle_of_operation hop args
  have hpassed : ChainRun b.outline b.filters (b.merged call) s true (b.merged call) s := by
    rw [hfilters]
    exact .done _ _
  cases ha : b.assemble (b.merged call) args with
  | error e => exact invoke_unassembled cs htakes hpassed (by rwa [hbundle])
  | ok slots =>
    rw [invoke_assembled cs htakes hpassed (by rwa [hbundle]), Callable.call_of_operation hop]
    rfl

theorem zip_zipWith (f : α → β → γ) (xs : List α) (ys : List β) :
    xs.zip (List.zipWith f xs ys) = (xs.zip ys).map fun p => (p.1, f p.1 p.2) := by
  induction xs generalizing ys with
  | nil => rfl
  | cons x xs ih =>
    cases ys with
    | nil => rfl
    | cons y ys => simp [ih]

namespace Binding

/-- Of arguments for the parameters left to the caller, those for other types than `t`. -/
def argsBut (b : Binding σ) (t : Ty) (args : List Value) : List Value := leftFor t b.visible args

theorem slots_inject (b : Binding σ) (i : Injected) :
    (b.inject i).slots = markType i.1 b.slots := zip_zipWith _ _ _

theorem map_fst_slots (b : Binding σ) : b.slots.map (·.1) = b.params :=
  List.map_fst_zip (Nat.le_of_eq b.marks_length.symm)

theorem get?_merged_inject_of_ne (b : Binding σ) (i : Injected) (call : Injections) {t : Ty}
    (h : t ≠ i.1) : ((b.inject i).merged call).get? t = (b.merged call).get? t := by
  have hdefault : (b.inject i).singletons.get? t = b.singletons.get? t := by
    rw [inject, TypeMap.get?_insertEntry, dif_neg (Ne.symm h)]
  rw [get?_merged, get?_merged, hdefault]
  rfl

theorem get?_merged_inject_self (b : Binding σ) {t : Ty} (a : t.Denote) {call : Injections}
    (ht : t ≠ .name) (hcall : call.get? t = none) :
    ((b.inject ⟨t, a⟩).merged call).get? t = some a := by
  have hdefault : (b.inject ⟨t, a⟩).singletons.get? t = some a := by
    rw [inject, TypeMap.get?_insertEntry, dif_pos rfl]
  rw [get?_merged, dif_neg (Ne.symm ht), hcall, hdefault]
  rfl

end Binding

/-- To inject a value into a function or a method without filters is to apply it to the arguments
of the value's type. Where the type was not injected, is not the type of names and is taken from
injections as it is, a call with as many arguments as the binding accepts, those of the type all
converted to the value, ends as the call of the injected binding without them: with the same value
or the same error, and in the same world. -/
theorem invoke_inject_eq_apply (b : Binding σ) (op : Operation σ)
    (hop : b.callable.operation? = some op) (hfilters : b.filters = []) {t : Ty}
    (hname : t ≠ .name) (haccept : ∀ a, t.accept a = some a) (hnew : (t, true) ∉ b.slots)
    (v : t.Denote) (cs : Converters) (call : Injections) (hcall : call.get? t = none)
    (args : List Value) (hlen : args.length = b.visible.length)
    (hargs : ∀ p ∈ b.visible.zip args, p.1 = t → (cs.convert t p.2).value = .ok v) (s : σ) :
    (invoke (b.inject ⟨t, v⟩) cs call (b.argsBut t args)).result s =
      (invoke b cs call args).result s := by
  have hassembled : AssembledAlike cs op.params (b.assemble (b.merged call) args)
      ((b.inject ⟨t, v⟩).assemble ((b.inject ⟨t, v⟩).merged call) (b.argsBut t args)) := by
    rw [← Callable.params_of_operation hop, ← Binding.params, ← b.map_fst_slots, Binding.assemble,
      Binding.assemble, b.slots_inject]
    refine fill_markType (fun _ => b.get?_merged_inject_of_ne ⟨t, v⟩ call)
      (b.get?_merged_inject_self v hname hcall) (haccept v) hnew ?_ hargs
    rw [hlen, Binding.visible, List.length_map, unmarked]
  have hop' : (b.inject ⟨t, v⟩).callable.operation? = some op := hop
  rw [invoke_unfiltered hop hfilters, invoke_unfiltered hop' hfilters, hassembled.ending s]

/-- Takes a number, a truth value and another number, and gives back the truth value. -/
def comparing : Operation Unit where
  params := [.i64, .bool, .i64]
  returns := .typed .bool
  run as := pure as.2.1

/-- The function between two numbers, of which none is injected. -/
def comparison : Binding Unit := .ofCallable ⟨"Scale", "compare"⟩ (.function comparing)

/-- With the number injected only the truth value is left to send, and one that is none is still
reported at its own position. -/
theorem comparison_applied :
    comparison.visible = [.i64, .bool, .i64] ∧
    (comparison.inject ⟨.i64, .wrap .i64 7⟩).visible = [.bool] ∧
    (invoke (comparison.inject ⟨.i64, .wrap .i64 7⟩) .empty .empty [.bool true]).result () =
      (invoke comparison .empty .empty [.integer 7, .bool true, .string " 7"]).result () ∧
    (invoke (comparison.inject ⟨.i64, .wrap .i64 7⟩) .empty .empty [.null]).result () =
      (.error (.conversion 1 .bool (.incompatible .null .bool)), ()) := by
  have happly (w : Value) :
      (invoke (comparison.inject ⟨.i64, .wrap .i64 7⟩) .empty .empty [w]).result () =
        (invoke comparison .empty .empty [.integer 7, w, .string " 7"]).result () := by
    refine invoke_inject_eq_apply (t := .i64) comparison comparing rfl rfl (by decide)
      (fun _ => rfl) (by decide) (.wrap .i64 7) .empty .empty rfl [.integer 7, w, .string " 7"] rfl
      ?_ ()
    have hseven : (Converters.convert .empty .i64 (.integer 7)).value = .ok (.wrap .i64 7) := rfl
    have htext : (Converters.convert .empty .i64 (.string " 7")).value = .ok (.wrap .i64 7) := rfl
    have hvisible : comparison.visible = [.i64, .bool, .i64] := rfl
    simp [hvisible, hseven, htext]
  exact ⟨rfl, rfl, happly (.bool true), (happly .null).trans rfl⟩

end BindingRegistry
