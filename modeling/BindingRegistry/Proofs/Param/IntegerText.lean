import BindingRegistry.Converters
import BindingRegistry.Proofs.Number.Spelling

/-!
Whole numbers sent as texts. The text of a number, with any blanks around it,
means the number for every width that has it. A text is read as a signed 64-bit
word first, whatever the width is, so only numbers that are none are left out:
the upper half of the two unsigned widths of 64 bits. Such a text is reported,
kept as a text and refused, while the number itself is taken.
-/
namespace BindingRegistry

open Text (Blanks between)

namespace Width

/-- Only the unsigned widths of 64 bits go beyond a signed 64-bit word. -/
theorem eq_of_greatest_lt {w : Width} (h : i64.greatest < w.greatest) : w = .u64 ∨ w = .usize := by
  revert h
  cases w <;> decide

theorem i64_least_le (w : Width) : i64.least ≤ w.least := by cases w <;> decide

end Width

theorem parsedText?_between {before cs after : List Char} (hb : Blanks before)
    (hcs : Text.Solid cs) (hne : cs ≠ []) (ha : Blanks after) :
    parsedText? .integer (between before cs after) = (Signed.read cs).toOption.map .integer := by
  rw [parsedText?, Text.trimChars_between hb hcs hne ha]

/-- The text of a number, between blanks, is read as the number exactly if it fits a signed 64-bit
word. -/
theorem parsedText?_intText {before after : List Char} (hb : Blanks before) (ha : Blanks after)
    (n : Int) : parsedText? .integer (between before (Decimal.intText n).toList after) =
      if Width.i64.least ≤ n ∧ n ≤ Width.i64.greatest then some (.integer n) else none := by
  rw [parsedText?_between hb (Decimal.solid_intText n) (Decimal.intText_ne_nil n) ha,
    Signed.read_intText]
  by_cases hlow : n < Width.i64.least
  · rw [if_pos hlow, if_neg (by omega)]
    rfl
  · by_cases hhigh : Width.i64.greatest < n
    · rw [if_neg hlow, if_pos hhigh, if_neg (by omega)]
      rfl
    · rw [if_neg hlow, if_neg hhigh, if_pos (by omega)]
      rfl

namespace Converters

variable {cs : Converters} {t : Ty}

/-- Without a converter for its type a value is coerced. -/
theorem convert_of_none (hcs : cs.get? t = none) (v : Value) : cs.convert t v = coerce t v := by
  rw [convert, attempt, hcs]
  rfl

theorem coerce_parsed {s : String} {v : Value} (hreads : t.coarse.readsText = true)
    (hs : parsedText? t.coarse s = some v) : coerce t (.string s) = pure (t.decode v) := by
  rw [coerce, parseText, if_pos hreads, hs]
  rfl

theorem coerce_unparsed {s : String} (hreads : t.coarse.readsText = true)
    (hs : parsedText? t.coarse s = none) :
    coerce t (.string s) = ⟨[.unparsedText s t.coarse], t.decode (.string s)⟩ := by
  rw [coerce, parseText, if_pos hreads, hs]
  rfl

end Converters

/-- Without a converter for its width a whole number is converted to itself. Its decimal text, with
any blanks around it, is converted to it as well, without a word, if the number fits a signed 64-bit
word; otherwise the width is unsigned and has 64 bits, and the text is reported and refused. -/
theorem convert_integer_text {cs : Converters} {w : Width} (hcs : cs.get? (.int w) = none)
    (k : Word w) {before after : List Char} (hb : Blanks before) (ha : Blanks after) :
    let text := between before (Decimal.intText k.val).toList after
    cs.convert (.int w) (.integer k.val) = pure (.ok k) ∧
    (k.val ≤ Width.i64.greatest → cs.convert (.int w) (.string text) = pure (.ok k)) ∧
    (Width.i64.greatest < k.val → (w = .u64 ∨ w = .usize) ∧ cs.convert (.int w) (.string text) =
      ⟨[.unparsedText text .integer], .error (.incompatible .string (.int w))⟩) := by
  intro text
  have hleast := Int.le_trans w.i64_least_le k.least_le
  have hdecode : Ty.decode (.int w) (.integer k.val) = .ok k := congrArg Except.ok (Word.wrap_val k)
  have hparsed := parsedText?_intText hb ha k.val
  refine ⟨?_, fun hfits => ?_, fun hbeyond => ⟨?_, ?_⟩⟩
  · rw [Converters.convert_of_none hcs, ← hdecode]
    rfl
  · rw [if_pos ⟨hleast, hfits⟩] at hparsed
    rw [Converters.convert_of_none hcs, Converters.coerce_parsed (t := .int w) rfl hparsed, hdecode]
  · exact Width.eq_of_greatest_lt (Int.lt_of_lt_of_le hbeyond k.le_greatest)
  · rw [if_neg (by omega)] at hparsed
    rw [Converters.convert_of_none hcs, Converters.coerce_unparsed (t := .int w) rfl hparsed]
    rfl

/-- A small number between blanks of two kinds, and the greatest of all. -/
theorem seven_and_greatest_texts :
    let ideographic := Char.ofNat 0x3000
    let greatest : Word .u64 := ⟨18446744073709551615, by decide, by decide⟩
    Converters.convert .empty (.int .u8) (.string (between [' '] ['7'] [ideographic])) =
      pure (.ok (.wrap .u8 7)) ∧
    Converters.convert .empty (.int .u64) (.integer greatest.val) = pure (.ok greatest) ∧
    (Converters.convert .empty (.int .u64)
      (.string (between [' '] (Decimal.intText greatest.val).toList [ideographic]))).value =
        .error (.incompatible .string (.int .u64)) := by
  intro ideographic greatest
  have hbefore : Blanks [' '] := by decide
  have hafter : Blanks [Char.ofNat 0x3000] := by decide
  have hnone (t : Ty) : (.empty : Converters).get? t = none := rfl
  have hseven := convert_integer_text (hnone _) (.wrap .u8 7) hbefore hafter
  have hgreatest := convert_integer_text (hnone _) greatest hbefore hafter
  have htext : (Decimal.intText 7).toList = ['7'] := by
    rw [Decimal.toList_intText, if_neg (by decide), Decimal.digits]
    rfl
  refine ⟨?_, hgreatest.1, ?_⟩
  · have hread := hseven.2.1 (by decide)
    rwa [show (Word.wrap .u8 7).val = 7 from rfl, htext] at hread
  · rw [(hgreatest.2.2 (by decide)).2]

/-- The greatest number of an unsigned word with 64 bits is taken as a number and not as its
text. -/
theorem greatest_u64_text_refused :
    Decimal.intText 18446744073709551615 = "18446744073709551615" ∧
    (Converters.convert .empty (.int .u64) (.integer 18446744073709551615)).value =
      .ok ⟨18446744073709551615, by decide, by decide⟩ ∧
    (Converters.convert .empty (.int .u64) (.string "18446744073709551615")).value =
      .error (.incompatible .string (.int .u64)) :=
  ⟨by decide +kernel, rfl, rfl⟩

end BindingRegistry
