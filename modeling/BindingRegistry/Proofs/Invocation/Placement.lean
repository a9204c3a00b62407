import BindingRegistry.Proofs.Invocation.Arity

/-!
Where arguments and injected values end up. Positions and arguments are gone
through side by side, and only a position that is not injected takes an argument.
A success is the one row of slots in which every injected position holds the value
of its type and the others hold the arguments in their order: none is lost, none
stands twice and no two change places.
-/
namespace BindingRegistry

variable {σ : Type} {whom : Culprit} {countError : InvokeError} {is : Injections}
variable {q : Ty × Bool} {ps : List (Ty × Bool)} {args : List Value} {slots : List Slot}

def Slot.argument? : Slot → Option Value
  | .supplied v => some v
  | .injected _ => none

/-- One slot a parameter: injected values at the marked ones, the arguments in their order at the
others. -/
structure Placed (is : Injections) (ps : List (Ty × Bool)) (args : List Value)
    (slots : List Slot) : Prop where
  length : slots.length = ps.length
  injected : ∀ (p : Nat) (t : Ty), ps[p]? = some (t, true) →
    ∃ a, is.get? t = some a ∧ slots[p]? = some (.injected ⟨t, a⟩)
  supplied : ∀ (p : Nat) (t : Ty), ps[p]? = some (t, false) → ∃ v, slots[p]? = some (.supplied v)
  arguments : slots.filterMap Slot.argument? = args

theorem fill_of_filled (h : Filled is ps args slots) (i : Nat) :
    Binding.fill whom countError is i ps args = .ok slots := by
  induction h generalizing i with
  | nil => rfl
  | injected ha _ ih =>
    simp only [Binding.fill, ha, ih]
    rfl
  | supplied t v _ ih =>
    simp only [Binding.fill, ih]
    rfl

theorem Filled.arguments (h : Filled is ps args slots) :
    slots.filterMap Slot.argument? = args := by
  induction h with
  | nil => rfl
  | injected _ _ ih => exact ih
  | supplied t v _ ih => exact congrArg (v :: ·) ih

theorem Filled.placed (h : Filled is ps args slots) : Placed is ps args slots := by
  have hslot (p : Nat) (t : Ty) (m : Bool) (hp : ps[p]? = some (t, m)) :
      ∃ slot, slots[p]? = some slot := by
    obtain ⟨hlt, -⟩ := List.getElem?_eq_some_iff.1 hp
    have hlen := h.length
    exact ⟨_, List.getElem?_eq_getElem (by omega)⟩
  refine ⟨h.length, fun p t hp => ?_, fun p t hp => ?_, h.arguments⟩
  · obtain ⟨slot, hs⟩ := hslot p t true hp
    obtain ⟨-, a, ha, rfl⟩ | ⟨hm, -⟩ := h.slot hp hs
    · exact ⟨a, ha, hs⟩
    · cases hm
  · obtain ⟨slot, hs⟩ := hslot p t false hp
    obtain ⟨hm, -⟩ | ⟨-, v, rfl⟩ := h.slot hp hs
    · cases hm
    · exact ⟨v, hs⟩

theorem Placed.tail {slot : Slot} (h : Placed is (q :: ps) args (slot :: slots)) :
    Placed is ps (slots.filterMap Slot.argument?) slots where
  length := by simpa using h.length
  injected p t hp := h.injected (p + 1) t hp
  supplied p t hp := h.supplied (p + 1) t hp
  arguments := rfl

theorem Placed.filled (h : Placed is ps args slots) : Filled is ps args slots := by
  induction ps generalizing args slots with
  | nil =>
    obtain rfl : slots = [] := List.length_eq_zero_iff.1 h.length
    obtain rfl : [] = args := h.arguments
    exact .nil
  | cons q ps ih =>
    cases slots with
    | nil => simpa using h.length
    | cons slot slots =>
      obtain ⟨t, m⟩ := q
      cases m with
      | true =>
        obtain ⟨a, ha, hslot⟩ := h.injected 0 t rfl
        obtain rfl : slot = .injected ⟨t, a⟩ := by simpa using hslot
        obtain rfl : slots.filterMap Slot.argument? = args := h.arguments
        exact .injected ha (ih h.tail)
      | false =>
        obtain ⟨v, hslot⟩ := h.supplied 0 t rfl
        obtain rfl : slot = .supplied v := by simpa using hslot
        obtain rfl : v :: slots.filterMap Slot.argument? = args := h.arguments
        exact .supplied t v (ih h.tail)

/-- The slots of a success are known from where the values are. -/
theorem fill_eq_ok_iff {i : Nat} :
    Binding.fill whom countError is i ps args = .ok slots ↔ Placed is ps args slots :=
  ⟨fun h => (filled_of_fill h).placed, fun h => fill_of_filled h.filled i⟩

theorem Placed.found (h : Placed is ps args slots) {p : Nat} {t : Ty}
    (hp : ps[p]? = some (t, true)) : is.contains t = true := by
  obtain ⟨a, ha, -⟩ := h.injected p t hp
  rw [TypeMap.contains, ha]
  rfl

/-- An assembly succeeds exactly if every marked type has a value and there is one argument for
each other position. -/
theorem exists_fill_iff {i : Nat} :
    (∃ slots, Binding.fill whom countError is i ps args = .ok slots) ↔
      (∀ (p : Nat) (t : Ty), ps[p]? = some (t, true) → is.contains t = true) ∧
        args.length = (unmarked ps).length := by
  constructor
  · rintro ⟨slots, h⟩
    have hfilled := filled_of_fill h
    exact ⟨fun p t hp => hfilled.placed.found hp, hfilled.args_length⟩
  · rintro ⟨found, hlen⟩
    refine exists_fill (fun t ht => ?_) hlen
    obtain ⟨p, hp⟩ := List.mem_iff_getElem?.1 ht
    exact found p t hp

/-- A binding's slots can be assembled exactly if every injected position finds a value of its type
and there are as many arguments as other positions. Then each injected position holds that value
and the arguments are in the other slots, all of them, once and in their order. If they cannot, the
error is that of the first injected position without a value, provided that the arguments last for
the positions before it, and otherwise that of the count. -/
theorem assemble_places_arguments (b : Binding σ) (is : Injections) (args : List Value) :
    ((∃ slots, b.assemble is args = .ok slots) ↔
      (∀ (p : Nat) (t : Ty), b.slots[p]? = some (t, true) → is.contains t = true) ∧
        args.length = b.visible.length) ∧
    (∀ slots, b.assemble is args = .ok slots ↔ Placed is b.slots args slots) ∧
    ∀ e, b.assemble is args = .error e →
      (∃ p t, FirstAbsent is b.slots p t ∧ (unmarked (b.slots.take p)).length ≤ args.length ∧
        e = .missingInjection (.binding b.name) p t) ∨
      ((∀ p t, FirstAbsent is b.slots p t → args.length < (unmarked (b.slots.take p)).length) ∧
        e = .argumentCount (.binding b.name) b.visible.length args.length b.injectedCount) := by
  refine ⟨?_, fun slots => fill_eq_ok_iff, fun e he => ?_⟩
  · rw [← b.length_unmarked_slots]
    exact exists_fill_iff
  · cases fillError_of_fill he with
    | @missing p t hfirst hcovered =>
      exact .inl ⟨p, t, hfirst, hcovered, by rw [Nat.zero_add]⟩
    | count huncovered => exact .inr ⟨huncovered, b.countError_eq args.length⟩

/-- With a token between a number and a text: without a value for it, a call with one argument ends
at its position and a call with none in the count. -/
example :
    let ring : Operation Unit := ⟨[.i64, .token, .string], .typed .i64, fun as => pure as.1⟩
    let b := (Binding.ofCallable ⟨"Till", "ring"⟩ (.method ring)).inject ⟨.token, "t"⟩
    b.assemble (TypeMap.empty.insert .token "u") [.integer 7, .null] =
      .ok [.supplied (.integer 7), .injected ⟨.token, "u"⟩, .supplied .null] ∧
    b.assemble .empty [.integer 7] = .error (.missingInjection (.binding b.name) 1 .token) ∧
    b.assemble .empty [] = .error (.argumentCount (.binding b.name) 2 0 1) :=
  ⟨rfl, rfl, rfl⟩

end BindingRegistry
