import BindingRegistry.Proofs.Invocation.Course

/-!
Filters as a gate. A call evaluates the filters of its binding in order, each
once and in the injections that the ones before it left, up to the first that
rejects. If one does, the call is over: no argument is looked at and nothing is
run. If none does, the call is carried out in what the last filter left.
-/
namespace BindingRegistry

variable {σ : Type} {o : Outline}

/-- A chain rejects at a filter that all before it led to. -/
theorem ChainRun.rejected {fs : List (Filter σ)} {is is' : Injections} {s s' : σ}
    (h : ChainRun o fs is s false is' s') :
    ∃ before f rest is₁ s₁, fs = before ++ f :: rest ∧ ChainRun o before is s true is₁ s₁ ∧
      (f o is₁).result s₁ = ((false, is'), s') := by
  generalize hpassed : false = passed at h
  induction h with
  | done is s => cases hpassed
  | @stop f fs is is₁ s s₁ hf => exact ⟨[], f, fs, is, s, rfl, .done is s, hf⟩
  | @next f fs passed is is₁ is₂ s s₁ s₂ hf _ ih =>
    obtain ⟨before, g, rest, is₃, s₃, rfl, hbefore, hg⟩ := ih hpassed
    exact ⟨f :: before, g, rest, is₃, s₃, rfl, .next hf hbefore, hg⟩

/-- Filters evaluated one after the other, each with the injections that the ones before it
left. -/
def evaluations (o : Outline) : List (Filter σ) → Injections → σ → List (Filter σ × Injections)
  | [], _, _ => []
  | f :: fs, is, s =>
    (f, is) :: evaluations o fs ((f o is).result s).1.2 ((f o is).result s).2

/-- Every evaluation of one of the filters adds its note to a list that the world keeps. -/
def Notes (o : Outline) (fs : List (Filter σ)) (notes : σ → List ν)
    (note : Filter σ × Injections → ν) : Prop :=
  ∀ f ∈ fs, ∀ is s, notes ((f o is).result s).2 = notes s ++ [note (f, is)]

/-- Between two worlds exactly these filters were evaluated, once each and in order: whoever takes
notes of the evaluations of `all` filters finds those. -/
def Evaluated (o : Outline) (all fs : List (Filter σ)) (is : Injections) (s s' : σ) : Prop :=
  ∀ (ν : Type) (notes : σ → List ν) (note : Filter σ × Injections → ν), Notes o all notes note →
    notes s' = notes s ++ (evaluations o fs is s).map note

theorem Evaluated.nil {all : List (Filter σ)} (is : Injections) (s : σ) :
    Evaluated o all [] is s s := fun _ notes _ _ => (List.append_nil (notes s)).symm

theorem Evaluated.cons {all fs : List (Filter σ)} {f : Filter σ} {accepted : Bool}
    {is is₁ : Injections} {s s₁ s' : σ} (hmem : f ∈ all)
    (hf : (f o is).result s = ((accepted, is₁), s₁)) (h : Evaluated o all fs is₁ s₁ s') :
    Evaluated o all (f :: fs) is s s' := by
  intro ν notes note hnotes
  have hfirst := hnotes f hmem is s
  rw [hf] at hfirst
  rw [h ν notes note hnotes, hfirst, evaluations, hf, List.map_cons, List.append_assoc]
  rfl

/-- What a call comes to that the filters let pass with these injections. -/
def Binding.carryOut (b : Binding σ) (cs : Converters) (is : Injections) (args : List Value) :
    Action σ (Except InvokeError Value) := do
  match ← b.prepare is args with
  | .error e => return .error e
  | .ok slots =>
    match ← b.callable.call cs slots is with
    | .error e => return .error e
    | .ok values => return .ok (← b.normalize values)

theorem invoke_passed {b : Binding σ} {call is : Injections} {s s₁ : σ}
    (h : ChainRun b.outline b.filters (b.merged call) s true is s₁) (cs : Converters)
    (args : List Value) :
    (invoke b cs call args).result s = (b.carryOut cs is args).result s₁ := by
  simp only [invoke, Action.result_bind, Action.result_log, h.result, if_true]
  rfl

end BindingRegistry
