import BindingRegistry.Engine

/-!
Slots and the values that they yield. A supplied slot yields what the converters
make of it, an injected one what the parameter's type takes from it. Taking one
slot a parameter succeeds exactly when every slot yields a value, and otherwise
ends in the fault of the lowest slot that does not.
-/
namespace BindingRegistry

variable {cs : Converters}

inductive Slot.Yields (cs : Converters) (t : Ty) : Slot → t.Denote → Prop where
  | supplied {v : Value} {a : t.Denote} :
    (cs.convert t v).value = .ok a → Slot.Yields cs t (.supplied v) a
  | injected {i : Injected} {a : t.Denote} :
    (Injected.cast? i t).bind t.accept = some a → Slot.Yields cs t (.injected i) a

/-- The slot yields no value of type `t`; at `position` this is the error. -/
inductive Slot.Faults (cs : Converters) (t : Ty) (position : Nat) : Slot → InvokeError → Prop where
  | supplied {v : Value} {e : ConvertError} :
    (cs.convert t v).value = .error e →
      Slot.Faults cs t position (.supplied v) (.conversion position t e)
  | injected {i : Injected} :
    (Injected.cast? i t).bind t.accept = none →
      Slot.Faults cs t position (.injected i) (.injectionMismatch position t i.1)

theorem Slot.Yields.content {t : Ty} {slot : Slot} {a : t.Denote} (h : slot.Yields cs t a)
    (position : Nat) : (ArgVector.content cs t position slot).value = .ok a := by
  cases h with
  | supplied h => simp [ArgVector.content, h]
  | injected h => simp [ArgVector.content, h]

theorem Slot.Faults.content {t : Ty} {position : Nat} {slot : Slot} {e : InvokeError}
    (h : slot.Faults cs t position e) :
    (ArgVector.content cs t position slot).value = .error e := by
  cases h with
  | supplied h => simp [ArgVector.content, h]
  | injected h => simp [ArgVector.content, h]

theorem Slot.yields_or_faults (cs : Converters) (t : Ty) (position : Nat) (slot : Slot) :
    (∃ a, slot.Yields cs t a) ∨ ∃ e, slot.Faults cs t position e := by
  cases slot with
  | supplied v =>
    cases h : (cs.convert t v).value with
    | ok a => exact .inl ⟨a, .supplied h⟩
    | error e => exact .inr ⟨_, .supplied h⟩
  | injected i =>
    cases h : (Injected.cast? i t).bind t.accept with
    | some a => exact .inl ⟨a, .injected h⟩
    | none => exact .inr ⟨_, .injected h⟩

def Args.items : {ts : List Ty} → Args ts → List Injected
  | [], _ => []
  | t :: _, (a, as) => ⟨t, a⟩ :: items as

/-- At each position the argument is what the slot yields for the type. -/
def Fits (cs : Converters) (ts : List Ty) (slots : List Slot) (as : Args ts) : Prop :=
  ∀ (p : Nat) (t : Ty) (slot : Slot), ts[p]? = some t → slots[p]? = some slot →
    ∃ a, slot.Yields cs t a ∧ as.items[p]? = some ⟨t, a⟩

/-- Counted from `k`, the slot at position `p` has the fault `e` and every lower slot yields. -/
structure FirstFault (cs : Converters) (k : Nat) (ts : List Ty) (slots : List Slot) (p : Nat)
    (e : InvokeError) : Prop where
  fault : ∃ t slot, ts[p]? = some t ∧ slots[p]? = some slot ∧ slot.Faults cs t (k + p) e
  lower : ∀ (q : Nat) (t : Ty) (slot : Slot), q < p → ts[q]? = some t → slots[q]? = some slot →
    ∃ a, slot.Yields cs t a

theorem fits_nil (cs : Converters) : Fits cs [] [] () := fun p t slot ht _ => by simp at ht

theorem fits_cons {t : Ty} {ts : List Ty} {slot : Slot} {slots : List Slot} {a : t.Denote}
    {as : Args ts} (h : slot.Yields cs t a) (hs : Fits cs ts slots as) :
    Fits cs (t :: ts) (slot :: slots) (a, as) := by
  intro p t' slot' ht hslot
  cases p with
  | zero =>
    obtain rfl : t = t' := by simpa using ht
    obtain rfl : slot = slot' := by simpa using hslot
    exact ⟨a, h, rfl⟩
  | succ p => exact hs p t' slot' ht hslot

theorem Fits.head {t : Ty} {ts : List Ty} {slot : Slot} {slots : List Slot} {a : t.Denote}
    {as : Args ts} (h : Fits cs (t :: ts) (slot :: slots) (a, as)) : slot.Yields cs t a := by
  obtain ⟨b, hb, he⟩ := h 0 t slot rfl rfl
  obtain rfl : a = b := by simpa [Args.items] using he
  exact hb

theorem Fits.tail {t : Ty} {ts : List Ty} {slot : Slot} {slots : List Slot} {a : t.Denote}
    {as : Args ts} (h : Fits cs (t :: ts) (slot :: slots) (a, as)) : Fits cs ts slots as :=
  fun p t' slot' ht hslot => h (p + 1) t' slot' ht hslot

theorem takeAll_cons {t : Ty} {slot : Slot} {a : t.Denote} (h : slot.Yields cs t a) (k : Nat)
    (ts : List Ty) (slots : List Slot) :
    (ArgVector.takeAll cs (t :: ts) ⟨slot :: slots, k⟩).value =
      (ArgVector.takeAll cs ts ⟨slots, k + 1⟩).value.map (fun as => (a, as)) := by
  simp only [ArgVector.takeAll, ArgVector.take, Logged.value_bind, h.content, Logged.value_pure]
  cases (ArgVector.takeAll cs ts ⟨slots, k + 1⟩).value <;> rfl

theorem Fits.takeAll {ts : List Ty} {slots : List Slot} {as : Args ts}
    (h : Fits cs ts slots as) (hlen : slots.length = ts.length) (k : Nat) :
    (ArgVector.takeAll cs ts ⟨slots, k⟩).value = .ok as := by
  induction ts generalizing slots k with
  | nil => rfl
  | cons t ts ih =>
    cases slots with
    | nil => simp at hlen
    | cons slot slots =>
      rw [takeAll_cons h.head, ih h.tail (by simpa using hlen)]
      rfl

theorem FirstFault.head {t : Ty} {ts : List Ty} {slot : Slot} {slots : List Slot} {k : Nat}
    {e : InvokeError} (h : FirstFault cs k (t :: ts) (slot :: slots) 0 e) :
    slot.Faults cs t k e := by
  obtain ⟨t', slot', ht, hslot, hf⟩ := h.fault
  obtain rfl : t = t' := by simpa using ht
  obtain rfl : slot = slot' := by simpa using hslot
  exact hf

theorem FirstFault.tail {t : Ty} {ts : List Ty} {slot : Slot} {slots : List Slot} {k p : Nat}
    {e : InvokeError} (h : FirstFault cs k (t :: ts) (slot :: slots) (p + 1) e) :
    FirstFault cs (k + 1) ts slots p e where
  fault := by
    obtain ⟨t', slot', ht, hslot, hf⟩ := h.fault
    have hk : k + 1 + p = k + (p + 1) := by omega
    exact ⟨t', slot', ht, hslot, hk ▸ hf⟩
  lower q t' slot' hq ht hslot := h.lower (q + 1) t' slot' (by omega) ht hslot

/-- Slots are taken from the left, so the lowest fault decides. -/
theorem FirstFault.takeAll {ts : List Ty} {slots : List Slot} {k p : Nat} {e : InvokeError}
    (h : FirstFault cs k ts slots p e) :
    (ArgVector.takeAll cs ts ⟨slots, k⟩).value = .error e := by
  induction ts generalizing slots k p with
  | nil =>
    obtain ⟨t, slot, ht, -⟩ := h.fault
    simp at ht
  | cons t ts ih =>
    cases slots with
    | nil =>
      obtain ⟨t', slot, -, hslot, -⟩ := h.fault
      simp at hslot
    | cons slot slots =>
      cases p with
      | zero =>
        simp only [ArgVector.takeAll, ArgVector.take, Logged.value_bind, h.head.content,
          Logged.value_pure]
      | succ p =>
        obtain ⟨a, ha⟩ := h.lower 0 t slot (by omega) rfl rfl
        rw [takeAll_cons ha, ih h.tail]
        rfl

/-- With one slot a type, either all of them yield values or one is the first that does not. -/
theorem fits_or_firstFault (cs : Converters) (k : Nat) {ts : List Ty} {slots : List Slot}
    (hlen : slots.length = ts.length) :
    (∃ as, Fits cs ts slots as) ∨ ∃ p e, FirstFault cs k ts slots p e := by
  induction ts generalizing slots k with
  | nil =>
    obtain rfl : slots = [] := by simpa using hlen
    exact .inl ⟨(), fits_nil cs⟩
  | cons t ts ih =>
    cases slots with
    | nil => simp at hlen
    | cons slot slots =>
      rcases slot.yields_or_faults cs t k with ⟨a, ha⟩ | ⟨e, he⟩
      · rcases ih (k + 1) (by simpa using hlen) with ⟨as, has⟩ | ⟨p, e, he⟩
        · exact .inl ⟨(a, as), fits_cons ha has⟩
        · refine .inr ⟨p + 1, e, ?_, ?_⟩
          · obtain ⟨t', slot', ht, hslot, hf⟩ := he.fault
            have hk : k + (p + 1) = k + 1 + p := by omega
            exact ⟨t', slot', ht, hslot, hk ▸ hf⟩
          · intro q t' slot' hq ht hslot
            cases q with
            | zero =>
              obtain rfl : t = t' := by simpa using ht
              obtain rfl : slot = slot' := by simpa using hslot
              exact ⟨a, ha⟩
            | succ q => exact he.lower q t' slot' (by omega) ht hslot
      · refine .inr ⟨0, e, ⟨t, slot, rfl, rfl, he⟩, ?_⟩
        intro q t' slot' hq
        omega

end BindingRegistry
