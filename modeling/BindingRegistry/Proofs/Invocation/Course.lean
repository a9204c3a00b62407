import BindingRegistry.Proofs.Invocation.Assembly
import BindingRegistry.Proofs.Invocation.Chain
import BindingRegistry.Proofs.Invocation.Slots
import BindingRegistry.Filters.Stock

/-!
The course of a call. Filters decide first, then the assembly of slots, then
the slots in the order of their positions; what the caller and the host did
wrong beyond the first fault is never looked at. Only when all of them agree
does the operation behind the binding run, once, on what the slots yield.
-/
namespace BindingRegistry

variable {σ : Type}

/-- The first of the produced values, null if there is none; an error stays. -/
def firstOf : Except InvokeError (List Value) → Except InvokeError Value
  | .ok vs => .ok (vs.head?.getD .null)
  | .error e => .error e

theorem normalize_result (b : Binding σ) (vs : List Value) (s : σ) :
    (b.normalize vs).result s = (vs.head?.getD .null, s) := by
  cases vs with
  | nil => rfl
  | cons v vs => cases vs <;> rfl

section

variable {b : Binding σ} {call is : Injections} {s s₁ : σ} {args : List Value}

theorem invoke_rejected (cs : Converters) (args : List Value)
    (h : ChainRun b.outline b.filters (b.merged call) s false is s₁) :
    (invoke b cs call args).result s = (.ok .null, s₁) := by
  simp [invoke, h.result]

theorem prepare_result (hb : b.callable.takesArguments = true) (is : Injections)
    (args : List Value) (s : σ) :
    (b.prepare is args).result s = (b.assemble is (b.callable.bundle args), s) := by
  simp [Binding.prepare, hb]

theorem invoke_unassembled {e : InvokeError} (cs : Converters)
    (hb : b.callable.takesArguments = true)
    (h : ChainRun b.outline b.filters (b.merged call) s true is s₁)
    (ha : b.assemble is (b.callable.bundle args) = .error e) :
    (invoke b cs call args).result s = (.error e, s₁) := by
  simp [invoke, h.result, prepare_result hb, ha]

theorem invoke_assembled {slots : List Slot} (cs : Converters)
    (hb : b.callable.takesArguments = true)
    (h : ChainRun b.outline b.filters (b.merged call) s true is s₁)
    (ha : b.assemble is (b.callable.bundle args) = .ok slots) :
    (invoke b cs call args).result s =
      (firstOf ((b.callable.call cs slots is).result s₁).1,
        ((b.callable.call cs slots is).result s₁).2) := by
  simp only [invoke, Action.result_bind, Action.result_log, h.result, if_true,
    prepare_result hb, ha]
  cases ((b.callable.call cs slots is).result s₁).1 with
  | error e => rfl
  | ok vs => simp [firstOf, normalize_result]

end

def Callable.operation? : Callable σ → Option (Operation σ)
  | .function op | .method op => some op
  | _ => none

inductive Course (op : Operation σ) where
  | rejected
  /-- It ended in an error before the operation could run. -/
  | refused (e : InvokeError)
  | ran (as : Args op.params)

namespace Course

variable {op : Operation σ}

/-- The arguments of every run of the operation in the course, in order. -/
def runs : Course op → List (Args op.params)
  | ran as => [as]
  | _ => []

/-- The result of a course that was decided in the world `s`, and the world after it. -/
def ending : Course op → σ → Except InvokeError Value × σ
  | rejected, s => (.ok .null, s)
  | refused e, s => (.error e, s)
  | ran as, s =>
    (firstOf (op.returns.intoValues ((op.run as).result s).1), ((op.run as).result s).2)

end Course

/-- The course of a call made in the world `s`, and the world in which it is decided. -/
inductive Follows (b : Binding σ) (op : Operation σ) (cs : Converters) (call : Injections)
    (args : List Value) (s : σ) : Course op → σ → Prop where
  | rejected {is : Injections} {s₁ : σ} :
    ChainRun b.outline b.filters (b.merged call) s false is s₁ →
      Follows b op cs call args s .rejected s₁
  | unassembled {is : Injections} {s₁ : σ} {e : InvokeError} :
    ChainRun b.outline b.filters (b.merged call) s true is s₁ →
      b.assemble is args = .error e → Follows b op cs call args s (.refused e) s₁
  | untaken {is : Injections} {s₁ : σ} {slots : List Slot} {p : Nat} {e : InvokeError} :
    ChainRun b.outline b.filters (b.merged call) s true is s₁ →
      b.assemble is args = .ok slots → FirstFault cs 0 op.params slots p e →
        Follows b op cs call args s (.refused e) s₁
  | ran {is : Injections} {s₁ : σ} {slots : List Slot} {as : Args op.params} :
    ChainRun b.outline b.filters (b.merged call) s true is s₁ →
      b.assemble is args = .ok slots → Fits cs op.params slots as →
        Follows b op cs call args s (.ran as) s₁

theorem Operation.call_error {op : Operation σ} {cs : Converters} {slots : List Slot}
    {e : InvokeError} (h : (ArgVector.takeAll cs op.params { slots }).value = .error e) (s : σ) :
    (op.call cs slots).result s = (.error e, s) := by
  simp [Operation.call, h]

theorem Operation.call_ok {op : Operation σ} {cs : Converters} {slots : List Slot}
    {as : Args op.params} (h : (ArgVector.takeAll cs op.params { slots }).value = .ok as) (s : σ) :
    (op.call cs slots).result s =
      (op.returns.intoValues ((op.run as).result s).1, ((op.run as).result s).2) := by
  simp [Operation.call, h]

section

variable {b : Binding σ} {op : Operation σ} {cs : Converters} {call : Injections}
  {args : List Value} {s s₁ : σ}

theorem Binding.slots_length (b : Binding σ) : b.slots.length = b.params.length := by
  simp [Binding.slots, Binding.params, b.marks_length]

theorem assemble_length {is : Injections} {slots : List Slot}
    (h : b.assemble is args = .ok slots) : slots.length = b.params.length :=
  (filled_of_fill h).length.trans b.slots_length

theorem Callable.eq_of_operation {c : Callable σ} (h : c.operation? = some op) :
    c = .function op ∨ c = .method op := by
  cases c <;> simp_all [Callable.operation?]

theorem Callable.params_of_operation {c : Callable σ} (h : c.operation? = some op) :
    c.params = op.params := by
  rcases Callable.eq_of_operation h with rfl | rfl <;> rfl

theorem Callable.takesArguments_of_operation {c : Callable σ} (h : c.operation? = some op) :
    c.takesArguments = true := by
  rcases Callable.eq_of_operation h with rfl | rfl <;> rfl

theorem Callable.bundle_of_operation {c : Callable σ} (h : c.operation? = some op)
    (args : List Value) : c.bundle args = args := by
  rcases Callable.eq_of_operation h with rfl | rfl <;> rfl

theorem Callable.call_of_operation {c : Callable σ} (h : c.operation? = some op)
    (cs : Converters) (slots : List Slot) (is : Injections) :
    c.call cs slots is = op.call cs slots := by
  rcases Callable.eq_of_operation h with rfl | rfl <;> rfl

/-- The result of a call is that of its course. -/
theorem Follows.result {course : Course op} (hop : b.callable.operation? = some op)
    (h : Follows b op cs call args s course s₁) :
    (invoke b cs call args).result s = course.ending s₁ := by
  have hb := Callable.takesArguments_of_operation hop
  have hargs := Callable.bundle_of_operation hop args
  cases h with
  | rejected hc => exact invoke_rejected cs args hc
  | unassembled hc ha => exact invoke_unassembled cs hb hc (by rwa [hargs])
  | @untaken is s₁ slots p e hc ha hf =>
    have he := Operation.call_error hf.takeAll s₁
    rw [invoke_assembled cs hb hc (by rwa [hargs]), Callable.call_of_operation hop, he]
    rfl
  | @ran is s₁ slots as hc ha hfits =>
    have hlen : slots.length = op.params.length :=
      (assemble_length ha).trans (congrArg List.length (Callable.params_of_operation hop))
    have hr := Operation.call_ok (hfits.takeAll hlen 0) s₁
    rw [invoke_assembled cs hb hc (by rwa [hargs]), Callable.call_of_operation hop, hr]
    rfl

/-- Every call of an operation has a course. -/
theorem exists_follows (hop : b.callable.operation? = some op) (cs : Converters)
    (call : Injections) (args : List Value) (s : σ) :
    ∃ course s₁, Follows b op cs call args s course s₁ := by
  obtain ⟨passed, is, s₁, hc⟩ := exists_chainRun b.outline b.filters (b.merged call) s
  cases passed with
  | false => exact ⟨.rejected, s₁, .rejected hc⟩
  | true =>
    cases ha : b.assemble is args with
    | error e => exact ⟨.refused e, s₁, .unassembled hc ha⟩
    | ok slots =>
      have hlen : slots.length = op.params.length :=
        (assemble_length ha).trans (congrArg List.length (Callable.params_of_operation hop))
      rcases fits_or_firstFault cs 0 hlen with ⟨as, has⟩ | ⟨p, e, hf⟩
      · exact ⟨.ran as, s₁, .ran hc ha has⟩
      · exact ⟨.refused e, s₁, .untaken hc ha hf⟩

/-- What the filters leave alone is changed by the run of the operation only. -/
theorem Follows.part_eq {course : Course op} (h : Follows b op cs call args s course s₁)
    {part : σ → ρ} (hfs : LeaveAlone b.filters part) : part s₁ = part s := by
  cases h with
  | rejected hc | unassembled hc | untaken hc | ran hc => exact hc.part_eq hfs

inductive Refusal (b : Binding σ) (is : Injections) (supplied : Nat) : InvokeError → Prop where
  | count : Refusal b is supplied (b.countError supplied)
  | missing {p : Nat} {t : Ty} : b.slots[p]? = some (t, true) → is.get? t = none →
      Refusal b is supplied (.missingInjection (.binding b.name) p t)
  | conversion {p : Nat} {t : Ty} (cause : ConvertError) : b.slots[p]? = some (t, false) →
      Refusal b is supplied (.conversion p t cause)
  | mismatch {p : Nat} {t : Ty} {a : t.Denote} : b.slots[p]? = some (t, true) →
      is.get? t = some a → t.accept a = none → Refusal b is supplied (.injectionMismatch p t t)

theorem Binding.slots_getElem? {p : Nat} {t : Ty} {m : Bool} (h : b.slots[p]? = some (t, m)) :
    b.params[p]? = some t ∧ b.marks[p]? = some m := by
  rw [Binding.slots, List.getElem?_zip_eq_some] at h
  exact h

/-- The first slot that cannot be taken refuses the call. -/
theorem refusal_of_firstFault {is : Injections} {slots : List Slot} {p : Nat} {e : InvokeError}
    (hop : b.callable.operation? = some op) (ha : b.assemble is args = .ok slots)
    (hf : FirstFault cs 0 op.params slots p e) : Refusal b is args.length e := by
  obtain ⟨t, slot, ht, hs, hslot⟩ := hf.fault
  rw [Nat.zero_add] at hslot
  have hlen : p < b.slots.length := by
    rw [b.slots_length, ← assemble_length ha]
    exact (List.getElem?_eq_some_iff.1 hs).1
  obtain ⟨⟨t', m⟩, hp⟩ : ∃ q, b.slots[p]? = some q := ⟨_, List.getElem?_eq_getElem hlen⟩
  have hparam : b.params[p]? = some t :=
    (congrArg (·[p]?) (Callable.params_of_operation hop)).trans ht
  obtain rfl : t' = t := by simpa [(Binding.slots_getElem? hp).1] using hparam
  rcases (filled_of_fill ha).slot hp hs with ⟨rfl, a, hget, rfl⟩ | ⟨rfl, v, rfl⟩
  · cases hslot with
    | injected hnone => exact .mismatch hp hget (by simpa [Injected.cast?] using hnone)
  · cases hslot with
    | supplied _ => exact .conversion _ hp

/-- A call that is refused has passed the filters. -/
theorem Follows.refusal {e : InvokeError} (hop : b.callable.operation? = some op)
    (h : Follows b op cs call args s (.refused e) s₁) :
    ∃ is, ChainRun b.outline b.filters (b.merged call) s true is s₁ ∧
      Refusal b is args.length e := by
  cases h with
  | @unassembled is s₁ e hc ha =>
    refine ⟨is, hc, ?_⟩
    rcases fill_error ha with ⟨p, t, hp, hnone, rfl⟩ | rfl
    · rw [Nat.zero_add]
      exact .missing hp hnone
    · exact .count
  | @untaken is s₁ slots p e hc ha hf => exact ⟨is, hc, refusal_of_firstFault hop ha hf⟩

/-- The error of a refusal is that of the count or names a parameter with its type. -/
theorem Refusal.located {is : Injections} {k : Nat} {e : InvokeError} (h : Refusal b is k e) :
    e = b.countError k ∨ ∃ p t, b.params[p]? = some t ∧
      (e = .missingInjection (.binding b.name) p t ∨ (∃ cause, e = .conversion p t cause) ∨
        ∃ found, e = .injectionMismatch p t found) := by
  cases h with
  | count => exact .inl rfl
  | missing hp _ => exact .inr ⟨_, _, (Binding.slots_getElem? hp).1, .inl rfl⟩
  | conversion cause hp =>
    exact .inr ⟨_, _, (Binding.slots_getElem? hp).1, .inr (.inl ⟨cause, rfl⟩)⟩
  | mismatch hp _ _ => exact .inr ⟨_, _, (Binding.slots_getElem? hp).1, .inr (.inr ⟨_, rfl⟩)⟩

end

/-- A call of a function or a method follows a course, and every course it follows decides its
result, its error and how often and on what the operation runs: on the arguments of the course if
there are any, once, and otherwise not at all, and then the world is as the filters left it. -/
theorem invoke_operation_course (b : Binding σ) (op : Operation σ)
    (hop : b.callable.operation? = some op) (cs : Converters) (call : Injections)
    (args : List Value) (s : σ) :
    (∃ course s₁, Follows b op cs call args s course s₁) ∧
    ∀ course s₁, Follows b op cs call args s course s₁ →
      (invoke b cs call args).result s = course.ending s₁ ∧
      (∀ e, course = .refused e → e = b.countError args.length ∨
        ∃ p t, b.params[p]? = some t ∧
          (e = .missingInjection (.binding b.name) p t ∨ (∃ cause, e = .conversion p t cause) ∨
            ∃ found, e = .injectionMismatch p t found)) ∧
      (∀ runs : σ → List (Args op.params), LeaveAlone b.filters runs →
        (∀ as s', runs ((op.run as).result s').2 = runs s' ++ [as]) →
          runs ((invoke b cs call args).result s).2 = runs s ++ course.runs) ∧
      ∀ (ρ : Type) (receiver : σ → ρ), LeaveAlone b.filters receiver → course.runs = [] →
        receiver ((invoke b cs call args).result s).2 = receiver s := by
  refine ⟨exists_follows hop cs call args s, fun course s₁ h => ?_⟩
  have hr := h.result hop
  refine ⟨hr, ?_, ?_, ?_⟩
  · rintro e rfl
    obtain ⟨is, -, hrefusal⟩ := h.refusal hop
    exact hrefusal.located
  · intro runs hfs hrun
    rw [hr, ← h.part_eq hfs]
    cases course with
    | rejected | refused e => simp [Course.ending, Course.runs]
    | ran as => exact hrun as s₁
  · intro ρ receiver hfs hnone
    rw [hr, ← h.part_eq hfs]
    cases course with
    | rejected | refused e => rfl
    | ran as => cases hnone

/-- Notes its first argument down in the world and gives it back; the second is its own name. -/
def noting : Operation (List (Word .i64)) where
  params := [.i64, .name]
  returns := .typed .i64
  run as := Action.onWorld fun notes => (as.1, notes ++ [as.1])

/-- The noting method of a ledger, with a filter that lets every call pass. -/
def notingBinding : Binding (List (Word .i64)) :=
  (Binding.ofCallable ⟨"Ledger", "note"⟩ (.method noting)).addFilter (.counting id)

/-- A run on one argument, a truth value that is no number, and a call with both that and one
argument too many. -/
theorem noting_courses :
    notingBinding.callable.operation? = some noting ∧
    (invoke notingBinding .empty .empty [.integer 7]).result [] =
      (.ok (.integer 7), [.wrap .i64 7]) ∧
    (invoke notingBinding .empty .empty [.bool true]).result [] =
      (.error (.conversion 0 .i64 (.incompatible .bool .i64)), []) ∧
    (invoke notingBinding .empty .empty [.bool true, .null]).result [] =
      (.error (.argumentCount (.binding ⟨"Ledger", "note"⟩) 1 2 1), []) := by
  have hc : ChainRun notingBinding.outline notingBinding.filters (notingBinding.merged .empty) []
      true (notingBinding.merged .empty) [] := .next rfl (.done _ _)
  have course (args : List Value) :=
    (invoke_operation_course notingBinding noting rfl .empty .empty args []).2
  refine ⟨rfl, ?_, ?_, ?_⟩
  · have hfits : Fits .empty noting.params
        [.supplied (.integer 7), .injected ⟨.name, ⟨"Ledger", "note"⟩⟩]
        (.wrap .i64 7, ⟨"Ledger", "note"⟩, ()) :=
      fits_cons (.supplied rfl) (fits_cons (.injected rfl) (fits_nil _))
    exact (course [.integer 7] _ _ (.ran hc rfl hfits)).1
  · have hf : FirstFault .empty 0 noting.params
        [.supplied (.bool true), .injected ⟨.name, ⟨"Ledger", "note"⟩⟩] 0
        (.conversion 0 .i64 (.incompatible .bool .i64)) :=
      ⟨⟨_, _, rfl, rfl, .supplied rfl⟩, fun q _ _ hq => by omega⟩
    exact (course [.bool true] _ _ (.untaken hc rfl hf)).1
  · exact (course [.bool true, .null] _ _ (.unassembled hc rfl)).1

end BindingRegistry
