import BindingRegistry.Engine

/-!
Assembly of slots. A success has one slot a parameter: an injected parameter
gets the injected value of its type and any other one the next argument, with
none left over. A failure is the first injected type without a value, if the
arguments last up to it, and a number of arguments that does not fit otherwise.
-/
namespace BindingRegistry

variable {σ : Type} {whom : Culprit} {countError : InvokeError} {is : Injections}

/-- The slots that the injections and the arguments make for the marked parameters. -/
inductive Filled (is : Injections) : List (Ty × Bool) → List Value → List Slot → Prop where
  | nil : Filled is [] [] []
  | injected {t : Ty} {a : t.Denote} {ps : List (Ty × Bool)} {args : List Value}
    {slots : List Slot} : is.get? t = some a → Filled is ps args slots →
      Filled is ((t, true) :: ps) args (.injected ⟨t, a⟩ :: slots)
  | supplied (t : Ty) (v : Value) {ps : List (Ty × Bool)} {args : List Value}
    {slots : List Slot} : Filled is ps args slots →
      Filled is ((t, false) :: ps) (v :: args) (.supplied v :: slots)

theorem filled_of_fill {i : Nat} {ps : List (Ty × Bool)} {args : List Value} {slots : List Slot}
    (h : Binding.fill whom countError is i ps args = .ok slots) : Filled is ps args slots := by
  fun_induction Binding.fill whom countError is i ps args generalizing slots with
  | case1 => cases h; exact .nil
  | case2 | case3 | case5 => cases h
  | case4 i t ps args a ha ih =>
    cases hrest : Binding.fill whom countError is (i + 1) ps args with
    | error e => rw [hrest] at h; cases h
    | ok rest => rw [hrest] at h; cases h; exact .injected ha (ih hrest)
  | case6 i t ps v args ih =>
    cases hrest : Binding.fill whom countError is (i + 1) ps args with
    | error e => rw [hrest] at h; cases h
    | ok rest => rw [hrest] at h; cases h; exact .supplied t v (ih hrest)

theorem Filled.length {ps : List (Ty × Bool)} {args : List Value} {slots : List Slot}
    (h : Filled is ps args slots) : slots.length = ps.length := by
  induction h with
  | nil => rfl
  | injected _ _ ih => simp [ih]
  | supplied _ _ _ ih => simp [ih]

/-- The slot of an injected parameter holds the injected value of its type, of any other one an
argument. -/
theorem Filled.slot {ps : List (Ty × Bool)} {args : List Value} {slots : List Slot}
    (h : Filled is ps args slots) {p : Nat} {t : Ty} {m : Bool} {slot : Slot}
    (hp : ps[p]? = some (t, m)) (hslot : slots[p]? = some slot) :
    (m = true ∧ ∃ a, is.get? t = some a ∧ slot = .injected ⟨t, a⟩) ∨
      (m = false ∧ ∃ v, slot = .supplied v) := by
  induction h generalizing p with
  | nil => simp at hp
  | @injected t' a ps args slots ha _ ih =>
    cases p with
    | zero =>
      obtain ⟨rfl, rfl⟩ : t' = t ∧ true = m := by simpa using hp
      obtain rfl : Slot.injected ⟨t', a⟩ = slot := by simpa using hslot
      exact .inl ⟨rfl, a, ha, rfl⟩
    | succ p => exact ih (by simpa using hp) (by simpa using hslot)
  | @supplied t' v ps args slots _ ih =>
    cases p with
    | zero =>
      obtain ⟨rfl, rfl⟩ : t' = t ∧ false = m := by simpa using hp
      obtain rfl : Slot.supplied v = slot := by simpa using hslot
      exact .inr ⟨rfl, v, rfl⟩
    | succ p => exact ih (by simpa using hp) (by simpa using hslot)

def unmarked (ps : List (Ty × Bool)) : List (Ty × Bool) := ps.filter (fun p => !p.2)

@[simp] theorem unmarked_nil : unmarked [] = [] := rfl
@[simp] theorem unmarked_cons_true (t : Ty) (ps : List (Ty × Bool)) :
    unmarked ((t, true) :: ps) = unmarked ps := rfl
@[simp] theorem unmarked_cons_false (t : Ty) (ps : List (Ty × Bool)) :
    unmarked ((t, false) :: ps) = (t, false) :: unmarked ps := rfl

variable {q : Ty × Bool} {ps : List (Ty × Bool)} {args : List Value}

structure FirstAbsent (is : Injections) (ps : List (Ty × Bool)) (p : Nat) (t : Ty) : Prop where
  marked : ps[p]? = some (t, true)
  absent : is.get? t = none
  lower : ∀ (q : Nat) (t' : Ty), q < p → ps[q]? = some (t', true) → is.contains t' = true

theorem firstAbsent_zero_iff {t : Ty} :
    FirstAbsent is (q :: ps) 0 t ↔ q = (t, true) ∧ is.get? t = none := by
  constructor
  · intro h
    exact ⟨by simpa using h.marked, h.absent⟩
  · rintro ⟨rfl, hnone⟩
    exact ⟨rfl, hnone, fun q t' hq => absurd hq (Nat.not_lt_zero q)⟩

/-- After a position that misses nothing, the first absence is that of the rest. -/
theorem firstAbsent_succ_iff {p : Nat} {t : Ty} (hq : q.2 = true → is.contains q.1 = true) :
    FirstAbsent is (q :: ps) (p + 1) t ↔ FirstAbsent is ps p t := by
  constructor
  · intro h
    exact ⟨h.marked, h.absent, fun r t' hr => h.lower (r + 1) t' (by omega)⟩
  · intro h
    refine ⟨h.marked, h.absent, fun r t' hr hrt => ?_⟩
    cases r with
    | zero =>
      obtain rfl : q = (t', true) := by simpa using hrt
      exact hq rfl
    | succ r => exact h.lower r t' (by omega) hrt

/-- The error of an assembly that fails, with positions counted from `i`. -/
inductive FillError (whom : Culprit) (countError : InvokeError) (is : Injections) (i : Nat)
    (ps : List (Ty × Bool)) (args : List Value) : InvokeError → Prop where
  /-- The arguments last up to the first type without a value. -/
  | missing {p : Nat} {t : Ty} : FirstAbsent is ps p t →
      (unmarked (ps.take p)).length ≤ args.length →
      FillError whom countError is i ps args (.missingInjection whom (i + p) t)
  /-- They run out before it, or there is none. -/
  | count : (∀ (p : Nat) (t : Ty), FirstAbsent is ps p t →
      args.length < (unmarked (ps.take p)).length) →
      FillError whom countError is i ps args countError

/-- A position that misses nothing, with its argument if it takes one, leaves the error to the
rest. -/
theorem FillError.cons {i : Nat} {args' : List Value} {e : InvokeError}
    (hq : q.2 = true → is.contains q.1 = true)
    (hargs : args'.length = (unmarked [q]).length + args.length)
    (h : FillError whom countError is (i + 1) ps args e) :
    FillError whom countError is i (q :: ps) args' e := by
  have htake (p : Nat) : (unmarked ((q :: ps).take (p + 1))).length =
      (unmarked [q]).length + (unmarked (ps.take p)).length := by
    rw [List.take_succ_cons, ← List.length_append, unmarked, unmarked, unmarked,
      ← List.filter_append, List.singleton_append]
  cases h with
  | @missing p t hfirst hcovered =>
    have hposition : i + 1 + p = i + (p + 1) := by omega
    rw [hposition]
    refine .missing ((firstAbsent_succ_iff hq).2 hfirst) ?_
    rw [htake, hargs]
    omega
  | count huncovered =>
    refine .count fun p t hfirst => ?_
    cases p with
    | zero =>
      obtain ⟨rfl, hnone⟩ := firstAbsent_zero_iff.1 hfirst
      have hfound := hq rfl
      rw [TypeMap.contains, hnone] at hfound
      cases hfound
    | succ p =>
      have hshort := huncovered p t ((firstAbsent_succ_iff hq).1 hfirst)
      rw [htake, hargs]
      omega

/-- The filling is followed parameter by parameter; its error is the first one on the way. -/
theorem fillError_of_fill {i : Nat} {e : InvokeError}
    (h : Binding.fill whom countError is i ps args = .error e) :
    FillError whom countError is i ps args e := by
  fun_induction Binding.fill whom countError is i ps args with
  | case1 => cases h
  | case2 i v args =>
    cases h
    refine .count fun p t hfirst => ?_
    have hmarked := hfirst.marked
    simp at hmarked
  | case3 i t ps args hnone =>
    cases h
    exact .missing (firstAbsent_zero_iff.2 ⟨rfl, hnone⟩) (Nat.zero_le _)
  | case4 i t ps args a ha ih =>
    cases hrest : Binding.fill whom countError is (i + 1) ps args with
    | ok rest => rw [hrest] at h; cases h
    | error e' =>
      rw [hrest] at h
      cases h
      have hfound : is.contains t = true := by rw [TypeMap.contains, ha]; rfl
      exact (ih hrest).cons (fun _ => hfound) (Nat.zero_add _).symm
  | case5 i t ps =>
    cases h
    -- Whatever is absent stands after a position that takes an argument.
    refine .count fun p t' hfirst => ?_
    cases p with
    | zero =>
      obtain ⟨he, -⟩ := firstAbsent_zero_iff.1 hfirst
      cases he
    | succ p => simp
  | case6 i t ps v args ih =>
    cases hrest : Binding.fill whom countError is (i + 1) ps args with
    | ok rest => rw [hrest] at h; cases h
    | error e' =>
      rw [hrest] at h
      cases h
      exact (ih hrest).cons Bool.noConfusion (Nat.add_comm _ _)

/-- An assembly fails at an injected type without a value or with the count error. -/
theorem fill_error {i : Nat} {e : InvokeError}
    (h : Binding.fill whom countError is i ps args = .error e) :
    (∃ p t, ps[p]? = some (t, true) ∧ is.get? t = none ∧
      e = .missingInjection whom (i + p) t) ∨ e = countError := by
  cases fillError_of_fill h with
  | @missing p t hfirst _ => exact .inl ⟨p, t, hfirst.marked, hfirst.absent, rfl⟩
  | count _ => exact .inr rfl

end BindingRegistry
