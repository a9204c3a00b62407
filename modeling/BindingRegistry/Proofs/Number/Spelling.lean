import BindingRegistry.Number.Signed
import BindingRegistry.Proofs.Text.Blanks

/-!
Whole numbers as they are written. Digits read back as the number they were
written for, up to the bounds of a signed 64-bit word; beyond them reading ends
in the fault of the side on which the number lies. A text with anything else
among its digits is no number.
-/
namespace BindingRegistry

namespace Decimal

theorem digits_ne_nil (n : Nat) : digits n ≠ [] := by
  unfold digits
  split
  · exact List.cons_ne_nil _ _
  · exact List.append_ne_nil_of_right_ne_nil _ (List.cons_ne_nil _ _)

theorem toNat_of_isDigit {c : Char} (h : isDigit c = true) : 48 ≤ c.toNat ∧ c.toNat ≤ 57 := by
  rw [isDigit, Bool.and_eq_true, decide_eq_true_eq, decide_eq_true_eq, Char.le_def, Char.le_def,
    UInt32.le_iff_toNat_le, UInt32.le_iff_toNat_le] at h
  exact h

theorem ne_of_isDigit {c d : Char} (hc : isDigit c = true) (hd : isDigit d = false) : c ≠ d := by
  rintro rfl
  rw [hc] at hd
  cases hd

theorem isBlank_of_isDigit {c : Char} (h : isDigit c = true) : Text.isBlank c = false := by
  have hn := toNat_of_isDigit h
  simp only [Text.isBlank, Bool.or_eq_false_iff, Bool.and_eq_false_iff, decide_eq_false_iff_not]
  omega

theorem ne_sign_of_isDigit {c : Char} (h : isDigit c = true) : c ≠ '+' ∧ c ≠ '-' := by
  constructor <;> rintro rfl <;> revert h <;> decide

/-- Digits come before the letters of either case. -/
theorem not_le_of_isDigit {c d : Char} (h : isDigit c = true) (hd : 57 < d.toNat) :
    ¬d.val ≤ c.val := by
  have hn := toNat_of_isDigit h
  rw [UInt32.le_iff_toNat_le]
  exact Nat.not_le_of_lt (Nat.lt_of_le_of_lt hn.2 hd)

theorem isUpper_of_isDigit {c : Char} (h : isDigit c = true) : c.isUpper = false :=
  decide_eq_false fun hupper => not_le_of_isDigit h (by decide) hupper.1

theorem isLower_toLower_of_isDigit {c : Char} (h : isDigit c = true) :
    c.toLower.isLower = false := by
  have hstays : c.toLower = c :=
    dif_neg fun hupper => not_le_of_isDigit (d := 'A') h (by decide) hupper.1
  have hlower : decide (c.val ≥ 'a'.val) = false :=
    decide_eq_false (not_le_of_isDigit h (by decide))
  rw [hstays]
  exact Bool.and_eq_false_iff.2 (.inl hlower)

theorem solid_of_isDigit {cs : List Char} (h : ∀ c ∈ cs, isDigit c = true) : Text.Solid cs :=
  fun c hc => isBlank_of_isDigit (h c hc)

/-- The number that digits lead to when they are put behind those of `n`. -/
def valueFrom (n : Nat) (cs : List Char) : Nat := cs.foldl (fun n c => n * 10 + digitValue c) n

theorem valueFrom_cons (n : Nat) (c : Char) (cs : List Char) :
    valueFrom n (c :: cs) = valueFrom (n * 10 + digitValue c) cs := by
  rw [valueFrom, List.foldl_cons, valueFrom]

theorem le_valueFrom (n : Nat) (cs : List Char) : n ≤ valueFrom n cs := by
  induction cs generalizing n with
  | nil => exact Nat.le_refl n
  | cons c cs ih =>
    have hrest := ih (n * 10 + digitValue c)
    rw [valueFrom_cons]
    omega

theorem length_digits_le {w n : Nat} (hw : 0 < w) (hn : n < tenTo w) : (digits n).length ≤ w := by
  induction w generalizing n with
  | zero => exact absurd hw (Nat.lt_irrefl 0)
  | succ w ih =>
    rw [tenTo_succ] at hn
    unfold digits
    split
    · exact hw
    · next hlarge =>
      have hrest : (digits (n / 10)).length ≤ w := by
        cases w with
        | zero => exact absurd hn hlarge
        | succ w => exact ih (Nat.succ_pos w) (by omega)
      rw [List.length_append, List.length_singleton]
      omega

theorem isDigit_of_mem_padded {w n : Nat} {c : Char} (h : c ∈ padded w n) : isDigit c = true := by
  rcases List.mem_append.1 h with h | h
  · rw [List.eq_of_mem_replicate h]
    rfl
  · exact isDigit_of_mem_digits h

theorem length_padded {w n : Nat} (hw : 0 < w) (hn : n < tenTo w) : (padded w n).length = w := by
  have hlength := length_digits_le hw hn
  simp only [padded, zeros, List.length_append, List.length_replicate]
  omega

theorem length_padded_le {v w n : Nat} (hvw : v ≤ w) (hw : 0 < w) (hn : n < tenTo w) :
    (padded v n).length ≤ w := by
  have hlength := length_digits_le hw hn
  simp only [padded, zeros, List.length_append, List.length_replicate]
  omega

theorem padded_ne_nil (w n : Nat) : padded w n ≠ [] :=
  List.append_ne_nil_of_right_ne_nil _ (digits_ne_nil n)

theorem exists_padded_eq (w n : Nat) : ∃ c cs, padded w n = c :: cs ∧ isDigit c = true := by
  obtain ⟨c, cs, hp⟩ := List.exists_cons_of_ne_nil (padded_ne_nil w n)
  exact ⟨c, cs, hp, isDigit_of_mem_padded (hp ▸ List.mem_cons_self)⟩

theorem exists_head_padded (w n : Nat) (rest : List Char) :
    ∃ c ∈ (padded w n ++ rest).head?, isDigit c = true := by
  obtain ⟨c, cs, hp, hc⟩ := exists_padded_eq w n
  exact ⟨c, by rw [hp]; rfl, hc⟩

theorem solid_padded (w n : Nat) : Text.Solid (padded w n) :=
  solid_of_isDigit fun _ hc => isDigit_of_mem_padded hc

theorem solid_marked {c : Char} (hc : Text.isBlank c = false) (w n : Nat) :
    Text.Solid (c :: padded w n) :=
  Text.Solid.cons_iff.2 ⟨hc, solid_padded w n⟩

/-- Zeros in front do not change the number. -/
theorem value_padded (w n : Nat) : value (padded w n) = n := by
  have hzeros (k : Nat) : value (zeros k ++ digits n) = value (digits n) := by
    induction k with
    | zero => rfl
    | succ k ih =>
      rw [← ih]
      rfl
  rw [padded, hzeros, value_digits]

theorem toList_natText (n : Nat) : (natText n).toList = digits n := String.toList_ofList

theorem toList_intText (n : Int) :
    (intText n).toList = if n < 0 then '-' :: digits n.natAbs else digits n.natAbs := by
  unfold intText
  split
  · exact String.toList_ofList
  · exact toList_natText _

theorem intText_ne_nil (n : Int) : (intText n).toList ≠ [] := by
  rw [toList_intText]
  split
  · exact List.cons_ne_nil _ _
  · exact digits_ne_nil _

theorem solid_intText (n : Int) : Text.Solid (intText n).toList := by
  have hdigits : Text.Solid (digits n.natAbs) :=
    solid_of_isDigit fun _ hc => isDigit_of_mem_digits hc
  rw [toList_intText]
  split
  · exact Text.Solid.cons_iff.2 ⟨by decide, hdigits⟩
  · exact hdigits

end Decimal

namespace Signed

open Decimal (valueFrom)

/-- The largest magnitude of a number with the sign. -/
def reach (negative : Bool) : Nat := if negative then twoTo 63 else twoTo 63 - 1

/-- The fault of a number that lies beyond the reach of its sign. -/
def beyond (negative : Bool) : Fault := if negative then .tooSmall else .tooLarge

/-- Digits behind a number within reach lead to the number they spell, if that is within reach
too. -/
theorem take_digits (negative : Bool) {n : Nat} {cs : List Char}
    (hcs : ∀ c ∈ cs, Decimal.isDigit c = true) (hn : n ≤ reach negative) :
    take negative (Binary.signed negative n) cs =
      if valueFrom n cs ≤ reach negative then .ok (Binary.signed negative (valueFrom n cs))
      else .error (beyond negative) := by
  have hleast : Width.i64.least = -(twoTo 63 : Nat) := rfl
  have hgreatest : Width.i64.greatest = (twoTo 63 : Nat) - 1 := rfl
  have hpos := twoTo_pos 63
  induction cs generalizing n with
  | nil => exact (if_pos hn).symm
  | cons c cs ih =>
    have hc := hcs c List.mem_cons_self
    have hrest := @ih (n * 10 + Decimal.digitValue c) fun d hd => hcs d (List.mem_cons_of_mem c hd)
    have hle := Decimal.le_valueFrom (n * 10 + Decimal.digitValue c) cs
    rw [Decimal.valueFrom_cons, take, if_pos hc]
    cases negative with
    | false =>
      simp only [reach, beyond, Binary.signed, Bool.false_eq_true, if_false] at hrest hn ⊢
      by_cases hfits : n * 10 + Decimal.digitValue c ≤ twoTo 63 - 1
      · have hrest := hrest hfits
        rw [if_neg (by omega), if_neg (by omega)]
        exact_mod_cast hrest
      · rw [if_neg (by omega), if_pos (by omega), if_neg (by omega)]
    | true =>
      simp only [reach, beyond, Binary.signed, if_true] at hrest hn ⊢
      by_cases hfits : n * 10 + Decimal.digitValue c ≤ twoTo 63
      · have hrest := hrest hfits
        have hstep : -(n : Int) * 10 - (Decimal.digitValue c : Int) =
            -((n * 10 + Decimal.digitValue c : Nat) : Int) := by omega
        rw [if_neg (by omega), if_neg (by omega), hstep]
        exact hrest
      · rw [if_pos (by omega), if_neg (by omega)]

/-- A character that is no digit makes reading fail wherever it stands. -/
theorem take_error (negative : Bool) (n : Int) {cs : List Char}
    (h : ∃ c ∈ cs, Decimal.isDigit c = false) : ∃ e, take negative n cs = .error e := by
  induction cs generalizing n with
  | nil =>
    obtain ⟨c, hc, -⟩ := h
    exact absurd hc List.not_mem_nil
  | cons c cs ih =>
    cases hc : Decimal.isDigit c with
    | false => exact ⟨.invalidDigit, by rw [take, hc, if_neg Bool.false_ne_true]⟩
    | true =>
      obtain ⟨d, hd, hstray⟩ := h
      have hrest : d ∈ cs := (List.mem_cons.1 hd).resolve_left fun he => by simp_all
      have hnext (m : Int) : ∃ e, (if m < Width.i64.least then .error .tooSmall
          else if Width.i64.greatest < m then .error .tooLarge else take negative m cs) =
          Except.error e := by
        split
        · exact ⟨_, rfl⟩
        · split
          · exact ⟨_, rfl⟩
          · exact ih m ⟨d, hrest, hstray⟩
      rw [take, if_pos hc]
      exact hnext _

/-- A text that begins with something else has no sign. -/
theorem read_of_ne_sign {c : Char} {cs : List Char} (hplus : c ≠ '+') (hminus : c ≠ '-') :
    read (c :: cs) = take false 0 (c :: cs) := by
  rw [read]
  all_goals simp_all

theorem read_of_isDigit {c : Char} {cs : List Char} (h : Decimal.isDigit c = true) :
    read (c :: cs) = take false 0 (c :: cs) :=
  read_of_ne_sign (Decimal.ne_sign_of_isDigit h).1 (Decimal.ne_sign_of_isDigit h).2

/-- A text without a sign is no number if there is anything but digits in it. -/
theorem read_error_of_ne_sign {c : Char} {cs : List Char} (hplus : c ≠ '+') (hminus : c ≠ '-')
    (hstray : ∃ d ∈ c :: cs, Decimal.isDigit d = false) : ∃ e, read (c :: cs) = .error e := by
  rw [read_of_ne_sign hplus hminus]
  exact take_error false 0 hstray

/-- Digits with something else among them are no number. -/
theorem read_error {cs : List Char} (hfirst : ∃ c ∈ cs.head?, Decimal.isDigit c = true)
    (hstray : ∃ c ∈ cs, Decimal.isDigit c = false) : ∃ e, read cs = .error e := by
  obtain ⟨c, hhead, hc⟩ := hfirst
  obtain ⟨hplus, hminus⟩ := Decimal.ne_sign_of_isDigit hc
  cases cs with
  | nil => simp at hhead
  | cons d rest =>
    obtain rfl : d = c := by simpa using hhead
    exact read_error_of_ne_sign hplus hminus hstray

/-- A character that is neither a digit nor a sign is part of no number. -/
theorem read_error_of_mem {c : Char} {cs : List Char} (hc : c ∈ cs)
    (hdigit : Decimal.isDigit c = false) (hplus : c ≠ '+') (hminus : c ≠ '-') :
    ∃ e, read cs = .error e := by
  have hsign {d : Char} (hd : c ≠ d) {rest : List Char} (hmem : c ∈ d :: rest) : c ∈ rest :=
    (List.mem_cons.1 hmem).resolve_left hd
  unfold read
  split
  · exact ⟨_, rfl⟩
  · exact ⟨_, rfl⟩
  · exact ⟨_, rfl⟩
  · exact take_error false 0 ⟨c, hsign hplus hc, hdigit⟩
  · exact take_error true 0 ⟨c, hsign hminus hc, hdigit⟩
  · exact take_error false 0 ⟨c, hc, hdigit⟩

theorem read_digits (n : Nat) : read (Decimal.digits n) =
    if n ≤ reach false then .ok (n : Int) else .error .tooLarge := by
  have htake := take_digits false (fun c hc => Decimal.isDigit_of_mem_digits (n := n) hc)
    (Nat.zero_le (reach false))
  have hvalue : valueFrom 0 (Decimal.digits n) = n := Decimal.value_digits n
  rw [hvalue] at htake
  cases hd : Decimal.digits n with
  | nil => exact absurd hd (Decimal.digits_ne_nil n)
  | cons c rest =>
    rw [hd] at htake
    rw [read_of_isDigit (Decimal.isDigit_of_mem_digits (n := n) (hd ▸ List.mem_cons_self))]
    exact htake

theorem read_minus_digits (n : Nat) : read ('-' :: Decimal.digits n) =
    if n ≤ reach true then .ok (-(n : Int)) else .error .tooSmall := by
  have htake := take_digits true (fun c hc => Decimal.isDigit_of_mem_digits (n := n) hc)
    (Nat.zero_le (reach true))
  have hvalue : valueFrom 0 (Decimal.digits n) = n := Decimal.value_digits n
  rw [hvalue] at htake
  rw [read]
  · exact htake
  · exact Decimal.digits_ne_nil n

/-- The text of a whole number reads as the number exactly if it fits. -/
theorem read_intText (n : Int) : read (Decimal.intText n).toList =
    if n < Width.i64.least then .error .tooSmall
    else if Width.i64.greatest < n then .error .tooLarge else .ok n := by
  have hleast : Width.i64.least = -(twoTo 63 : Nat) := rfl
  have hgreatest : Width.i64.greatest = (twoTo 63 : Nat) - 1 := rfl
  have hpos := twoTo_pos 63
  rw [Decimal.toList_intText]
  by_cases hn : n < 0
  · have hback : -(n.natAbs : Int) = n := by omega
    rw [if_pos hn, read_minus_digits, hback, reach, if_pos rfl]
    by_cases hfits : n.natAbs ≤ twoTo 63
    · rw [if_pos hfits, if_neg (by omega), if_neg (by omega)]
    · rw [if_neg hfits, if_pos (by omega)]
  · have hback : (n.natAbs : Int) = n := by omega
    rw [if_neg hn, read_digits, hback, reach, if_neg Bool.false_ne_true]
    by_cases hfits : n.natAbs ≤ twoTo 63 - 1
    · rw [if_pos hfits, if_neg (by omega), if_neg (by omega)]
    · rw [if_neg hfits, if_neg (by omega), if_pos (by omega)]

end Signed

end BindingRegistry
