import Mathlib.Data.Int.ModEq
import Mathlib.Data.Rat.Floor
import BindingRegistry.Param.Decode
import BindingRegistry.Proofs.Number.Widening

/-!
Numbers of any size as whole numbers of a width. A whole number out of range
wraps: it becomes the only word congruent to it. A float out of range stops at
the bound: it becomes its exact value without the fraction, or the bound next to
that. So the two ways part beyond the bounds of the width, and a number in range
means the same whether it comes whole or as a float that is exact.
-/
namespace BindingRegistry

/-- What is left of a number without its fraction. -/
def towardZero (r : ℚ) : Int := if 0 ≤ r then ⌊r⌋ else ⌈r⌉

theorem towardZero_intCast (n : Int) : towardZero n = n := by
  unfold towardZero
  split
  · exact Int.floor_intCast n
  · exact Int.ceil_intCast n

namespace Binary

variable {f : FloatFormat}

def toRat (x : Binary f) : ℚ := (signed x.negative (f.quanta x.word) : Int) / (twoTo f.scale : Nat)

/-- Cutting off the quanta below one cuts off the fraction, on both sides of zero. -/
theorem towardZero_toRat (x : Binary f) :
    towardZero x.toRat = signed x.negative (f.quanta x.word / twoTo f.scale) := by
  have hpos : (0 : ℚ) < (twoTo f.scale : Nat) := Nat.cast_pos.2 (twoTo_pos f.scale)
  unfold towardZero toRat
  rw [Rat.floor_intCast_div_natCast, Rat.ceil_intCast_div_natCast]
  cases x.negative with
  | false =>
    have hnonneg : (0 : ℚ) ≤ (signed false (f.quanta x.word) : Int) / (twoTo f.scale : Nat) :=
      div_nonneg (Int.cast_nonneg (Int.natCast_nonneg _)) hpos.le
    rw [if_pos hnonneg]
    rfl
  | true =>
    by_cases hzero : f.quanta x.word = 0
    · rw [hzero, if_pos (by simp [signed]), Nat.zero_div]
      exact Int.zero_ediv _
    · have hbelow : (signed true (f.quanta x.word) : Int) < 0 := by
        simp only [signed, if_true]
        omega
      have hnegative : ¬(0 : ℚ) ≤ (signed true (f.quanta x.word) : Int) / (twoTo f.scale : Nat) :=
        not_le.2 (div_neg_of_neg_of_pos (Int.cast_lt_zero.2 hbelow) hpos)
      rw [if_neg hnegative]
      simp only [signed, if_true, Int.neg_neg]
      rfl

theorem clampTo_of_isFinite {x : Binary f} (hx : x.isFinite = true) (lo hi : Int) :
    x.clampTo lo hi = max lo (min hi (towardZero x.toRat)) := by
  rw [clampTo, datum_of_isFinite hx, towardZero_toRat]

end Binary

namespace Word

variable {w : Width}

theorem wrap_modEq (w : Width) (n : Int) : (wrap w n).val ≡ n [ZMOD w.modulus] := by
  have h := (Int.mod_modEq (n - w.least) w.modulus).add_right w.least
  rwa [Int.sub_add_cancel] at h

/-- Two words of one width that are congruent are the same. -/
theorem eq_of_modEq {a b : Word w} (h : a.val ≡ b.val [ZMOD w.modulus]) : a = b := by
  apply ext_val
  have ha := a.least_le
  have ha' := a.le_greatest
  have hb := b.least_le
  have hb' := b.le_greatest
  have hw := w.greatest_eq
  have hdvd := h.dvd
  have hzero : b.val - a.val = 0 := Int.eq_zero_of_abs_lt_dvd hdvd (abs_lt.2 ⟨by omega, by omega⟩)
  omega

theorem clamp_val_eq {n : Int} (w : Width) :
    (clamp w (max w.least (min w.greatest n))).val = max w.least (min w.greatest n) := by
  have h := w.least_le_greatest
  simp only [clamp]
  omega

end Word

/-- Every number is taken for a whole number of any width. Whole numbers become the one word of the
width that is congruent to them; floats become their exact value without its fraction, brought into
the range of the width. So a number in range is the same word whole and as a float that is exact. -/
theorem decode_number (w : Width) :
    (∀ v : Value, v.kind = .integer ∨ v.kind = .float → ∃ a, (Ty.int w).decode v = .ok a) ∧
    (∀ n : Int, ∃ a : Word w, (Ty.int w).decode (.integer n) = .ok a ∧ a.val ≡ n [ZMOD w.modulus] ∧
      ∀ b : Word w, b.val ≡ n [ZMOD w.modulus] → b = a) ∧
    (∀ x : Binary64, x.isFinite = true → ∃ a : Word w, (Ty.int w).decode (.float x) = .ok a ∧
      a.val = max w.least (min w.greatest (towardZero x.toRat))) ∧
    ∀ (k : Word w) (x : Binary64), x.isFinite = true → x.toRat = k.val →
      (Ty.int w).decode (.integer k.val) = .ok k ∧ (Ty.int w).decode (.float x) = .ok k := by
  have hwhole (n : Int) : (Ty.int w).decode (.integer n) = .ok (.wrap w n) := rfl
  have hfloat (x : Binary64) : (Ty.int w).decode (.float x) = .ok (Ty.wordOfFloat w x) := rfl
  have hcast {x : Binary64} (hx : x.isFinite = true) :
      (Ty.wordOfFloat w x).val = max w.least (min w.greatest (towardZero x.toRat)) := by
    rw [Ty.wordOfFloat, Binary.clampTo_of_isFinite hx, Word.clamp_val_eq]
  refine ⟨fun v hkind => ?_, fun n => ?_, fun x hx => ⟨_, hfloat x, hcast hx⟩,
    fun k x hx hk => ⟨?_, ?_⟩⟩
  · cases v with
    | integer n => exact ⟨_, hwhole n⟩
    | float x => exact ⟨_, hfloat x⟩
    | _ => exact absurd hkind (by simp [Value.kind])
  · have hn := Word.wrap_modEq w n
    exact ⟨_, hwhole n, hn, fun b hb => Word.eq_of_modEq (hb.trans hn.symm)⟩
  · rw [hwhole, Word.wrap_val]
  · have hval := hcast hx
    have hlow := k.least_le
    have hhigh := k.le_greatest
    rw [hk, towardZero_intCast] at hval
    rw [hfloat, Word.ext_val (a := Ty.wordOfFloat w x) (b := k) (by omega)]

/-- The float three, and a number that is too large for a byte. -/
theorem three_and_three_hundred :
    let three : Binary64 := ⟨false, 4613937818241073152, by decide⟩
    let large : Binary64 := ⟨false, 4643994068097957888, by decide⟩
    three.isFinite = true ∧ three.toRat = 3 ∧
    (Ty.int .u8).decode (.float three) = .ok ⟨3, by decide, by decide⟩ ∧
    (Ty.int .u8).decode (.integer 300) = .ok ⟨44, by decide, by decide⟩ ∧
    (Ty.int .u8).decode (.float large) = .ok ⟨255, by decide, by decide⟩ := by
  intro three large
  obtain ⟨-, hwhole, hfloat, hboth⟩ := decode_number .u8
  have hthree : three.toRat = 3 := by
    have hquanta : FloatFormat.double.quanta three.word = 3 * twoTo FloatFormat.double.scale := by
      decide +kernel
    have hscale : ((twoTo FloatFormat.double.scale : Nat) : ℚ) ≠ 0 :=
      Nat.cast_ne_zero.2 (Nat.ne_of_gt (twoTo_pos _))
    have hsigned : Binary.signed three.negative (3 * twoTo FloatFormat.double.scale) =
        ((3 * twoTo FloatFormat.double.scale : Nat) : Int) := rfl
    rw [Binary.toRat, hquanta, hsigned, Int.cast_natCast, Nat.cast_mul, Nat.cast_ofNat]
    exact mul_div_cancel_right₀ _ hscale
  refine ⟨rfl, hthree, (hboth ⟨3, by decide, by decide⟩ three rfl hthree).2, ?_, ?_⟩
  · obtain ⟨a, ha, -, honly⟩ := hwhole 300
    rw [ha, honly ⟨44, by decide, by decide⟩ (by decide)]
  · obtain ⟨a, ha, hval⟩ := hfloat large rfl
    have hcut : towardZero large.toRat = 300 := by
      rw [Binary.towardZero_toRat]
      decide +kernel
    rw [hcut] at hval
    rw [ha, Word.ext_val (b := ⟨255, by decide, by decide⟩) hval]

end BindingRegistry
