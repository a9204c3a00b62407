import Mathlib.Data.List.DropRight
import BindingRegistry.Proofs.Json.Grammar
import BindingRegistry.Proofs.Number.Spelling
import BindingRegistry.Proofs.Time.Matching

/-!
The reader on blanks, numbers and strings. Each is read as what it writes, if it
writes anything, and what follows is left alone; a number must not be followed by
what could go on with it. Nothing else is read.
-/
namespace BindingRegistry.Json

open Decimal (isDigit ne_of_isDigit)

/-! Blanks -/

@[simp] theorem skipSpace_blanks (b : Blanks) (cs : List Char) :
    skipSpace (b.chars ++ cs) = skipSpace cs := List.dropWhile_append_of_pos b.blank

theorem skipSpace_cons {c : Char} (h : isSpace c = false) (cs : List Char) :
    skipSpace (c :: cs) = c :: cs := List.dropWhile_cons_of_neg (by simp [h])

@[simp] theorem skipSpace_skipSpace (cs : List Char) : skipSpace (skipSpace cs) = skipSpace cs :=
  List.dropWhile_idempotent _ _

/-- What is skipped is blank. -/
theorem exists_blanks (cs : List Char) : ∃ b : Blanks, cs = b.chars ++ skipSpace cs :=
  ⟨⟨cs.takeWhile isSpace, fun _ hc => List.mem_takeWhile_imp hc⟩,
    List.takeWhile_append_dropWhile.symm⟩

theorem exists_blanks_of_skipSpace {cs rest : List Char} (h : skipSpace cs = rest) :
    ∃ b : Blanks, cs = b.chars ++ rest := h ▸ exists_blanks cs

/-! Numbers -/

theorem digitRun_append (ds : Digits) {rest : List Char} (h : Time.Stops rest) :
    digitRun (ds.chars ++ rest) = (ds.chars, rest) := by
  rw [digitRun, List.takeWhile_append_of_pos ds.digits, List.dropWhile_append_of_pos ds.digits,
    Time.takeWhile_of_stops h, Time.dropWhile_of_stops h, List.append_nil]

theorem exists_digits {cs ds rest : List Char} (h : digitRun cs = (ds, rest)) (hne : ds ≠ []) :
    ∃ d : Digits, d.chars = ds ∧ cs = ds ++ rest := by
  obtain ⟨rfl, rfl⟩ := Prod.mk.inj h
  exact ⟨⟨_, hne, fun _ hc => List.mem_takeWhile_imp hc⟩, rfl,
    List.takeWhile_append_dropWhile.symm⟩

theorem Digits.exists_cons (ds : Digits) :
    ∃ c cs, ds.chars = c :: cs ∧ isDigit c = true := by
  obtain ⟨c, cs, h⟩ := List.exists_cons_of_ne_nil ds.nonempty
  exact ⟨c, cs, h, ds.digits c (by simp [h])⟩

theorem takeMinus_of_ne {c : Char} (h : c ≠ '-') (cs : List Char) :
    takeMinus (c :: cs) = (false, c :: cs) := by
  unfold takeMinus
  split
  · next heq => exact absurd (List.cons.inj heq).1 h
  · rfl

/-- A minus comes off, and a digit does not. -/
theorem takeMinus_digits (negative : Bool) (ds : Digits) (rest : List Char) :
    takeMinus (minusChars negative ++ (ds.chars ++ rest)) = (negative, ds.chars ++ rest) := by
  cases negative with
  | true => rfl
  | false =>
    obtain ⟨c, cs, hcs, hc⟩ := ds.exists_cons
    rw [hcs]
    exact takeMinus_of_ne (ne_of_isDigit hc (by decide)) _

/-- What cannot go on with a number. -/
def Ends (rest : List Char) : Prop :=
  ∀ c ∈ rest.head?, isDigit c = false ∧ c ≠ '.' ∧ isExponentMark c = false

theorem Ends.stops {rest : List Char} (h : Ends rest) : Time.Stops rest := fun c hc => (h c hc).1

theorem takeSign_digits (sign : Option Bool) (ds : Digits) (rest : List Char) :
    takeSign (signChars sign ++ (ds.chars ++ rest)) = (sign.getD false, ds.chars ++ rest) := by
  cases sign with
  | some negative => cases negative <;> rfl
  | none =>
    obtain ⟨c, cs, hcs, hc⟩ := ds.exists_cons
    have hplus : c ≠ '+' := ne_of_isDigit hc (by decide)
    have hminus : c ≠ '-' := ne_of_isDigit hc (by decide)
    simp only [signChars, List.nil_append, hcs, List.cons_append, Option.getD_none]
    unfold takeSign
    split
    · next heq => exact absurd (List.cons.inj heq).1 hplus
    · exact takeMinus_of_ne hminus _

theorem scaling?_chars (e : Option Exponent) {rest : List Char} (h : Ends rest) :
    scaling? (exponentChars e ++ rest) = some (e.map Exponent.value, rest) := by
  cases e with
  | none =>
    cases rest with
    | nil => rfl
    | cons c rest => simp [exponentChars, scaling?, (h c rfl).2.2]
  | some e =>
    -- The match on a run of digits is reduced with it.
    have hne : e.digits.chars ≠ [] := e.digits.nonempty
    simp only [exponentChars, Exponent.chars, List.cons_append, List.append_assoc, scaling?,
      e.isMark, if_true, exponent?, takeSign_digits, digitRun_append _ h.stops]
    rfl

theorem exponentChars_stops (e : Option Exponent) {rest : List Char} (h : Ends rest) :
    Time.Stops (exponentChars e ++ rest) ∧ ∀ c ∈ (exponentChars e ++ rest).head?, c ≠ '.' := by
  cases e with
  | none => exact ⟨h.stops, fun c hc => (h c hc).2.1⟩
  | some e =>
    have hmark := e.isMark
    simp only [isExponentMark, Bool.or_eq_true, decide_eq_true_eq] at hmark
    rcases hmark with hmark | hmark <;>
      simp [exponentChars, Exponent.chars, hmark, Time.Stops, Decimal.isDigit]

theorem fraction?_chars (places : Option Digits) {rest : List Char} (h : Time.Stops rest)
    (hpoint : ∀ c ∈ rest.head?, c ≠ '.') :
    fraction? (placesChars places ++ rest) = some (places.map Digits.chars, rest) := by
  cases places with
  | none =>
    simp only [placesChars, List.nil_append]
    unfold fraction?
    split
    · exact absurd rfl (hpoint '.' rfl)
    · rfl
  | some ds =>
    simp only [placesChars, List.cons_append, fraction?, digitRun_append _ h]
    split
    · next heq => exact absurd (Prod.mk.inj heq).1 ds.nonempty
    · next heq =>
      obtain ⟨rfl, rfl⟩ := Prod.mk.inj heq
      rfl

theorem Numeral.isWhole (n : Numeral) : isWhole n.whole.chars = true := by
  have hplain := n.plain
  simp only [Json.isWhole, Bool.and_eq_true, Bool.or_eq_true, decide_eq_true_eq]
  exact ⟨n.whole.nonempty, Classical.or_iff_not_imp_left.2 fun h => hplain (not_not.1 h)⟩

/-- A number is read as what it is, and no more than it. -/
theorem number?_chars (n : Numeral) {rest : List Char} (h : Ends rest) :
    number? (n.chars ++ rest) = n.value?.map fun v => (v, rest) := by
  obtain ⟨hstops, hpoint⟩ := exponentChars_stops n.exponent h
  have hplaces : Time.Stops (placesChars n.places ++ (exponentChars n.exponent ++ rest)) := by
    cases n.places with
    | none => exact hstops
    | some ds => exact Time.stops_cons (by decide) _
  simp only [Numeral.chars, List.append_assoc, number?, takeMinus_digits,
    digitRun_append _ hplaces, n.isWhole, if_true, fraction?_chars _ hstops hpoint,
    scaling?_chars _ h, Numeral.value?, Option.bind_eq_bind, Option.bind_some]
  cases numberValue? n.negative n.whole.chars (n.places.map Digits.chars)
    (n.exponent.map Exponent.value) <;> rfl

theorem takeMinus_eq {cs rest : List Char} {negative : Bool} (h : takeMinus cs = (negative, rest)) :
    cs = minusChars negative ++ rest := by
  unfold takeMinus at h
  split at h
  · cases h
    rfl
  · cases h
    rfl

theorem takeSign_eq (cs : List Char) :
    ∃ sign : Option Bool, cs = signChars sign ++ (takeSign cs).2 := by
  unfold takeSign
  split
  · exact ⟨some false, rfl⟩
  · unfold takeMinus
    split
    · exact ⟨some true, rfl⟩
    · exact ⟨none, rfl⟩

theorem exists_exponent {cs rest : List Char} {x : Option Int} (h : scaling? cs = some (x, rest)) :
    ∃ e : Option Exponent, cs = exponentChars e ++ rest := by
  unfold scaling? at h
  split at h
  · cases h
    exact ⟨none, rfl⟩
  · next c cs =>
    split at h
    · next hmark =>
      obtain ⟨p, hp, heq⟩ := Option.map_eq_some_iff.1 h
      obtain ⟨sign, hsign⟩ := takeSign_eq cs
      unfold exponent? at hp
      simp only at hp
      split at hp
      · cases hp
      · next ds after hne hrun =>
        obtain ⟨d, hd, hafter⟩ := exists_digits hrun hne
        cases hp
        cases heq
        refine ⟨some ⟨c, hmark, sign, d⟩, ?_⟩
        rw [exponentChars, Exponent.chars, hd, List.cons_append, List.append_assoc, ← hafter,
          ← hsign]
    · cases h
      exact ⟨none, rfl⟩

theorem exists_places {cs rest : List Char} {x : Option (List Char)}
    (h : fraction? cs = some (x, rest)) :
    ∃ places : Option Digits, cs = placesChars places ++ rest := by
  unfold fraction? at h
  split at h
  · next cs =>
    split at h
    · cases h
    · next ds after hne hrun =>
      obtain ⟨d, hd, hafter⟩ := exists_digits hrun hne
      cases h
      exact ⟨some d, by rw [placesChars, hd, hafter, List.cons_append]⟩
  · cases h
    exact ⟨none, rfl⟩

/-- Nothing else than the grammar allows is read as a number. -/
theorem exists_numeral {cs rest : List Char} {v : Value} (h : number? cs = some (v, rest)) :
    ∃ n : Numeral, cs = n.chars ++ rest := by
  rcases hsign : takeMinus cs with ⟨negative, behindSign⟩
  rcases hrun : digitRun behindSign with ⟨whole, behindWhole⟩
  simp only [number?, hsign, hrun] at h
  split at h
  · next hwhole =>
    simp only [Option.bind_eq_bind, Option.bind_eq_some_iff] at h
    obtain ⟨⟨x, behindPlaces⟩, hx, ⟨y, behindExponent⟩, hy, w, -, heq⟩ := h
    cases heq
    obtain ⟨places, rfl⟩ := exists_places hx
    obtain ⟨exponent, rfl⟩ := exists_exponent hy
    simp only [isWhole, Bool.and_eq_true, Bool.or_eq_true, decide_eq_true_eq] at hwhole
    obtain ⟨d, rfl, rfl⟩ := exists_digits hrun hwhole.1
    have hplain : d.chars.head? = some '0' → d.chars.length = 1 := fun hzero =>
      hwhole.2.resolve_left (not_not.2 hzero)
    refine ⟨⟨negative, d, hplain, places, exponent⟩, ?_⟩
    simp only [takeMinus_eq hsign, Numeral.chars, List.append_assoc]
  · cases h

/-! Strings -/

@[simp] theorem hex4?_chars (u : CodeUnit) (rest : List Char) :
    hex4? (u.chars ++ rest) = some (u.code, rest) := by
  simp [hex4?, CodeUnit.chars, CodeUnit.code, HexDigit.reads]

theorem exists_unit {cs rest : List Char} {n : Nat} (h : hex4? cs = some (n, rest)) :
    ∃ u : CodeUnit, cs = u.chars ++ rest := by
  unfold hex4? at h
  split at h
  · next a b c d behind =>
    simp only [Option.bind_eq_bind, Option.bind_eq_some_iff] at h
    obtain ⟨w, hw, x, hx, y, hy, z, hz, heq⟩ := h
    cases heq
    exact ⟨⟨⟨a, w, hw⟩, ⟨b, x, hx⟩, ⟨c, y, hy⟩, ⟨d, z, hz⟩⟩, rfl⟩
  · cases h

theorem ne_u_of_short {mark c : Char} (h : shortEscape? mark = some c) : mark ≠ 'u' := by
  rintro rfl
  cases h

section

variable {u : CodeUnit}

theorem escapedUnit?_low (h : isLow u.code = true) (rest : List Char) :
    escapedUnit? (u.chars ++ rest) = none := by
  simp [escapedUnit?, h]

theorem escapedUnit?_single (hlow : ¬isLow u.code = true) (hhigh : ¬isHigh u.code = true)
    (rest : List Char) : escapedUnit? (u.chars ++ rest) = some (Char.ofNat u.code, rest) := by
  simp [escapedUnit?, hlow, hhigh]

theorem escapedUnit?_pair (hlow : ¬isLow u.code = true) (hhigh : isHigh u.code = true)
    (v : CodeUnit) (rest : List Char) :
    escapedUnit? (u.chars ++ '\\' :: 'u' :: (v.chars ++ rest)) =
      if isLow v.code then some (pairChar u.code v.code, rest) else none := by
  simp [escapedUnit?, hlow, hhigh]

/-- Half of a pair is refused before anything but a unit. -/
theorem escapedUnit?_half (hlow : ¬isLow u.code = true) (hhigh : isHigh u.code = true)
    {s : List Piece} (hs : ∀ v s', s = .unit v :: s' → False) (rest : List Char) :
    escapedUnit? (u.chars ++ (s.flatMap Piece.chars ++ '"' :: rest)) = none := by
  simp only [escapedUnit?, hex4?_chars, Option.bind_eq_bind, Option.bind_some, hlow, hhigh,
    Bool.false_eq_true, if_true, if_false]
  cases s with
  | nil => rfl
  | cons p s =>
    cases p with
    | unit v => exact (hs v s rfl).elim
    | plain c h =>
      split
      · next heq =>
        have hc : c = '\\' := (List.cons.inj heq).1
        simp [isPlain, hc] at h
      · rfl
    | short mark c h =>
      split
      · next heq => exact absurd (List.cons.inj (List.cons.inj heq).2).1 (ne_u_of_short h)
      · rfl

theorem exists_units {cs rest : List Char} {c : Char} (h : escapedUnit? cs = some (c, rest)) :
    ∃ s : List Piece, '\\' :: 'u' :: cs = s.flatMap Piece.chars ++ rest := by
  simp only [escapedUnit?, Option.bind_eq_bind, Option.bind_eq_some_iff] at h
  obtain ⟨⟨n, behind⟩, hn, h⟩ := h
  obtain ⟨u, rfl⟩ := exists_unit hn
  split at h
  · cases h
  · split at h
    · split at h
      · next behindMark hbehind =>
        obtain ⟨⟨m, behindLow⟩, hm, hpair⟩ := Option.bind_eq_some_iff.1 h
        obtain ⟨v, hv⟩ := exists_unit hm
        split at hpair
        · have hrest : behindLow = rest := (Prod.mk.inj (Option.some.inj hpair)).2
          have hlow : behind = '\\' :: 'u' :: behindMark := hbehind
          exact ⟨[.unit u, .unit v], by simp [Piece.chars, hlow, hv, hrest]⟩
        · cases hpair
      · cases h
    · have hrest : behind = rest := (Prod.mk.inj (Option.some.inj h)).2
      exact ⟨[.unit u], by simp [Piece.chars, hrest]⟩

end

section

variable {fuel : Nat} (hfuel : 0 < fuel) (acc : List Char)
include hfuel

theorem stringBody?_quote (rest : List Char) :
    stringBody? fuel acc ('"' :: rest) = some (String.ofList acc.reverse, rest) := by
  obtain ⟨fuel, rfl⟩ := Nat.exists_eq_add_one.2 hfuel
  simp [stringBody?]

theorem stringBody?_plain {c : Char} (h : isPlain c = true) (rest : List Char) :
    stringBody? fuel acc (c :: rest) = stringBody? (fuel - 1) (c :: acc) rest := by
  obtain ⟨fuel, rfl⟩ := Nat.exists_eq_add_one.2 hfuel
  simp only [isPlain, Bool.and_eq_true, decide_eq_true_eq] at h
  simp only [stringBody?, h.1.1, h.1.2, Nat.not_lt.2 h.2, if_false, Nat.add_sub_cancel]

theorem stringBody?_short {mark c : Char} (h : shortEscape? mark = some c) (rest : List Char) :
    stringBody? fuel acc ('\\' :: mark :: rest) = stringBody? (fuel - 1) (c :: acc) rest := by
  obtain ⟨fuel, rfl⟩ := Nat.exists_eq_add_one.2 hfuel
  simp [stringBody?, ne_u_of_short h, h]

theorem stringBody?_unit (rest : List Char) :
    stringBody? fuel acc ('\\' :: 'u' :: rest) =
      (escapedUnit? rest).bind fun p => stringBody? (fuel - 1) (p.1 :: acc) p.2 := by
  obtain ⟨fuel, rfl⟩ := Nat.exists_eq_add_one.2 hfuel
  simp only [stringBody?, Char.reduceEq, if_false, if_true, Nat.add_sub_cancel]
  cases escapedUnit? rest <;> rfl

end

/-- What stands between quotes is read as the characters it writes, if it writes any. -/
theorem stringBody?_chars (s : List Piece) {fuel : Nat} (acc rest : List Char)
    (hfuel : (s.flatMap Piece.chars).length < fuel) :
    stringBody? fuel acc (s.flatMap Piece.chars ++ '"' :: rest) =
      (stringChars? s).map fun cs => (String.ofList (acc.reverse ++ cs), rest) := by
  have hpos : 0 < fuel := Nat.zero_lt_of_lt hfuel
  fun_induction stringChars? s generalizing fuel acc with
  | case1 => simp [stringBody?_quote hpos]
  | case2 c hc s ih =>
    simp only [List.flatMap_cons, Piece.chars, List.cons_append, List.nil_append,
      List.length_cons] at hfuel ⊢
    rw [stringBody?_plain hpos acc hc, ih _ (by omega) (by omega)]
    simp [Function.comp_def]
  | case3 mark c hc s ih =>
    simp only [List.flatMap_cons, Piece.chars, List.cons_append, List.nil_append,
      List.length_cons] at hfuel ⊢
    rw [stringBody?_short hpos acc hc, ih _ (by omega) (by omega)]
    simp [Function.comp_def]
  | case4 u s hlow =>
    simp only [List.flatMap_cons, Piece.chars, List.cons_append, List.append_assoc]
    rw [stringBody?_unit hpos, escapedUnit?_low hlow]
    rfl
  | case5 u hlow hhigh v s hpair ih =>
    simp only [List.flatMap_cons, Piece.chars, List.cons_append, List.append_assoc,
      List.length_cons, List.length_append] at hfuel ⊢
    rw [stringBody?_unit hpos, escapedUnit?_pair hlow hhigh, if_pos hpair, Option.bind_some,
      ih _ (by omega) (by omega)]
    simp [Function.comp_def]
  | case6 u hlow hhigh v s hpair =>
    simp only [List.flatMap_cons, Piece.chars, List.cons_append, List.append_assoc]
    rw [stringBody?_unit hpos, escapedUnit?_pair hlow hhigh, if_neg hpair]
    rfl
  | case7 u s hlow hhigh hs =>
    simp only [List.flatMap_cons, Piece.chars, List.cons_append, List.append_assoc]
    rw [stringBody?_unit hpos, escapedUnit?_half hlow hhigh hs]
    rfl
  | case8 u s hlow hhigh ih =>
    simp only [List.flatMap_cons, Piece.chars, List.cons_append, List.append_assoc,
      List.length_cons, List.length_append] at hfuel ⊢
    rw [stringBody?_unit hpos, escapedUnit?_single hlow hhigh, Option.bind_some,
      ih _ (by omega) (by omega)]
    simp [Function.comp_def]

/-- What is read as the rest of a string is made of pieces up to its closing quote. -/
theorem exists_pieces {fuel : Nat} {acc cs rest : List Char} {k : String}
    (h : stringBody? fuel acc cs = some (k, rest)) :
    ∃ s : List Piece, cs = s.flatMap Piece.chars ++ '"' :: rest := by
  induction fuel generalizing acc cs with
  | zero => cases h
  | succ fuel ih =>
    cases cs with
    | nil => cases h
    | cons c cs =>
      simp only [stringBody?] at h
      split at h
      · next hquote =>
        have hrest : cs = rest := (Prod.mk.inj (Option.some.inj h)).2
        exact ⟨[], by rw [hquote, hrest]; rfl⟩
      · next hquote =>
        split at h
        · next hslash =>
          split at h
          · cases h
          · next e cs =>
            split at h
            · next hu =>
              split at h
              · next d behind hd =>
                obtain ⟨s, hs⟩ := exists_units hd
                obtain ⟨s', rfl⟩ := ih h
                exact ⟨s ++ s', by rw [hslash, hu, hs, List.flatMap_append, List.append_assoc]⟩
              · cases h
            · split at h
              · next d hd =>
                obtain ⟨s, rfl⟩ := ih h
                exact ⟨.short e d hd :: s, by rw [hslash]; rfl⟩
              · cases h
        · next hslash =>
          split at h
          · cases h
          · next hcontrol =>
            obtain ⟨s, rfl⟩ := ih h
            have hplain : isPlain c = true := by
              simp [isPlain, hquote, hslash, Nat.not_lt.1 hcontrol]
            exact ⟨.plain c hplain :: s, rfl⟩

end BindingRegistry.Json
