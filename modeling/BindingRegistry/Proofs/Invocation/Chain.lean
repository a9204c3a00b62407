import BindingRegistry.Engine

/-!
Filter chains as runs. Each filter of a chain works in the injections and the
world that the ones before it left. The chain passes when every filter accepts;
it rejects at the first one that does not, and later ones are never asked.
-/
namespace BindingRegistry

variable {σ : Type} {o : Outline}

/-- A chain passes (`true`) or rejects (`false`), from injections and a world to others. -/
inductive ChainRun (o : Outline) :
    List (Filter σ) → Injections → σ → Bool → Injections → σ → Prop where
  | done (is : Injections) (s : σ) : ChainRun o [] is s true is s
  | stop {f : Filter σ} (fs : List (Filter σ)) {is is₁ : Injections} {s s₁ : σ} :
    (f o is).result s = ((false, is₁), s₁) → ChainRun o (f :: fs) is s false is₁ s₁
  | next {f : Filter σ} {fs : List (Filter σ)} {passed : Bool} {is is₁ is₂ : Injections}
    {s s₁ s₂ : σ} : (f o is).result s = ((true, is₁), s₁) →
      ChainRun o fs is₁ s₁ passed is₂ s₂ → ChainRun o (f :: fs) is s passed is₂ s₂

theorem ChainRun.result {fs : List (Filter σ)} {passed : Bool} {is is' : Injections} {s s' : σ}
    (h : ChainRun o fs is s passed is' s') :
    (runFilters o fs is).result s = ((passed, is'), s') := by
  induction h with
  | done is s => rfl
  | stop fs hf => simp only [runFilters, Action.result_bind, hf, Action.result_pure]
  | next hf _ ih => simp only [runFilters, Action.result_bind, hf, ih]

/-- Behind a chain that passes, another one runs in what it left. -/
theorem ChainRun.append {fs gs : List (Filter σ)} {passed : Bool} {is is₁ is₂ : Injections}
    {s s₁ s₂ : σ} (h : ChainRun o fs is s true is₁ s₁) (hg : ChainRun o gs is₁ s₁ passed is₂ s₂) :
    ChainRun o (fs ++ gs) is s passed is₂ s₂ := by
  generalize haccepted : true = accepted at h
  induction h with
  | done is s => exact hg
  | stop => cases haccepted
  | next hf _ ih => exact .next hf (ih hg haccepted)

/-- From any injections and world a chain either passes or rejects. -/
theorem exists_chainRun (o : Outline) (fs : List (Filter σ)) (is : Injections) (s : σ) :
    ∃ passed is' s', ChainRun o fs is s passed is' s' := by
  induction fs generalizing is s with
  | nil => exact ⟨true, is, s, .done is s⟩
  | cons f fs ih =>
    rcases hf : (f o is).result s with ⟨⟨accepted, is₁⟩, s₁⟩
    cases accepted with
    | false => exact ⟨false, is₁, s₁, .stop fs hf⟩
    | true =>
      obtain ⟨passed, is', s', h⟩ := ih is₁ s₁
      exact ⟨passed, is', s', .next hf h⟩

/-- No filter of the list changes this part of the world. -/
def LeaveAlone (fs : List (Filter σ)) (part : σ → ρ) : Prop :=
  ∀ f ∈ fs, ∀ o is s, part ((f o is).result s).2 = part s

theorem ChainRun.part_eq {fs : List (Filter σ)} {passed : Bool} {is is' : Injections} {s s' : σ}
    (h : ChainRun o fs is s passed is' s') {part : σ → ρ} (hfs : LeaveAlone fs part) :
    part s' = part s := by
  induction h with
  | done is s => rfl
  | @stop f fs is is₁ s s₁ hf =>
    have h₁ := hfs f List.mem_cons_self o is s
    rwa [hf] at h₁
  | @next f fs passed is is₁ is₂ s s₁ s₂ hf _ ih =>
    have h₁ := hfs f List.mem_cons_self o is s
    rw [hf] at h₁
    exact (ih fun g hg => hfs g (List.mem_cons_of_mem f hg)).trans h₁

end BindingRegistry
