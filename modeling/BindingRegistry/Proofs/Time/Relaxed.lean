import BindingRegistry.Proofs.Time.Openings

/-!
The relaxed form beside the other ways to write a time. It takes whatever the
strict form takes, with white space around it, as the same time. No other layout
takes a text that it takes, and no such text is a number. So a text that is read
in both ways is one time.
-/
namespace BindingRegistry.Time

open Decimal (isDigit)
open Text (Blanks)

theorem stops_of_blanks {after : List Char} (h : Blanks after) : Stops after :=
  fun c hc => isDigit_of_isBlank (h c (List.mem_of_mem_head? hc))

theorem Stops.append_blanks {rest after : List Char} (h : Stops rest) (hafter : Blanks after) :
    Stops (rest ++ after) := by
  cases rest with
  | nil => exact stops_of_blanks hafter
  | cons c rest => exact stops_cons (h c rfl) _

theorem Scanned.append_blanks {least most : Nat} {cs ds rest after : List Char}
    (h : Scanned least most cs ds rest) (hafter : Blanks after) :
    Scanned least most (cs ++ after) ds (rest ++ after) where
  eq_append := by rw [h.eq_append, List.append_assoc]
  digits := h.digits
  least_le := h.least_le
  le_most := h.le_most
  ends := h.ends.imp_right fun hstops => hstops.append_blanks hafter

/-- What the first items take from the front of a text, the second take too, and end with the same
fields at the same place, also when the text goes on with white space. -/
def TakenBy (items loose : List Item) : Prop :=
  ∀ fs cs fs' rest after, Blanks after → matchItems fs cs items = .ok (fs', rest) →
    matchItems fs (cs ++ after) loose = .ok (fs', rest ++ after)

theorem TakenBy.append {items loose items' loose' : List Item} (h : TakenBy items loose)
    (h' : TakenBy items' loose') : TakenBy (items ++ items') (loose ++ loose') := by
  intro fs cs fs' rest after hafter hmatch
  rw [matchItems_append_eq] at hmatch
  obtain ⟨⟨fs₁, cs₁⟩, hfirst, hrest⟩ := exists_of_bind_ok hmatch
  rw [matchItems_append (h fs cs fs₁ cs₁ after hafter hfirst)]
  exact h' fs₁ cs₁ fs' rest after hafter hrest

theorem TakenBy.of_item {item : Item} {loose : List Item}
    (h : ∀ fs cs fs' rest after, Blanks after → matchItem item fs cs = .ok (fs', rest) →
      matchItems fs (cs ++ after) loose = .ok (fs', rest ++ after)) : TakenBy [item] loose := by
  intro fs cs fs' rest after hafter hmatch
  obtain ⟨fs₁, cs₁, hfirst, hrest⟩ := exists_of_matchItems_cons hmatch
  cases hrest
  exact h fs cs fs' rest after hafter hfirst

/-- An item for numbers that may have fewer digits takes exactly `w` digits as well. -/
theorem takenBy_digits {f : Field} {w : Nat} (hw : 0 < w) {item : Item}
    (hitem : ∀ ds, (∀ c ∈ ds, isDigit c = true) → ds ≠ [] → ds.length = w → ∀ fs rest,
      matchItem item fs (ds ++ rest) = setField fs f (Decimal.value ds) rest) :
    TakenBy [.digits f w] [item] := by
  refine .of_item fun fs cs fs' rest after _ hmatch => ?_
  obtain ⟨ds, hds, hset⟩ := exists_scanned_of_bind (g := Int.ofNat) hmatch
  have hlength : ds.length = w := Nat.le_antisymm hds.le_most hds.least_le
  have hne : ds ≠ [] := List.length_pos_iff.1 (hlength ▸ hw)
  rw [hds.eq_append, List.append_assoc]
  exact matchItems_of_ok ((hitem ds hds.digits hne hlength fs _).trans ((setField_other hset).2 _))

theorem takenBy_number (f : Field) {w : Nat} (hw : 0 < w) :
    TakenBy [.digits f w] [.number f w] :=
  takenBy_digits hw fun _ hds hne hlength fs rest =>
    matchItem_number_digits hds hne (Nat.le_of_eq hlength) rest (.inl hlength) f fs

theorem takenBy_signedYear : TakenBy [.digits .year 4] [.signedYear] :=
  takenBy_digits (Nat.zero_lt_succ 3) fun _ hds hne hlength fs rest =>
    matchItem_signedYear_digits hds hne (Nat.le_of_eq hlength) rest (.inl hlength) fs

/-- Blanks may stand before a mark but need not. -/
theorem takenBy_literal {c : Char} (hc : Text.isBlank c = false) :
    TakenBy [.literal c] [.blank, .literal c] := by
  refine .of_item fun fs cs fs' rest after _ hmatch => ?_
  obtain ⟨rfl, rfl⟩ := eq_cons_of_literal hmatch
  rw [List.cons_append, matchItems, matchItem, List.dropWhile_cons_of_neg (by simp [hc])]
  exact matchItems_of_ok (if_pos rfl)

theorem takenBy_oneOf (choices : List Char) : TakenBy [.oneOf choices] [.oneOf choices] := by
  refine .of_item fun fs cs fs' rest after _ hmatch => ?_
  obtain ⟨c, hc, rfl, rfl⟩ := exists_of_oneOf hmatch
  exact matchItems_of_ok (if_pos hc)

theorem takenBy_fraction : TakenBy [.fraction] [.fraction] := by
  refine .of_item fun fs cs fs' rest after hafter hmatch => ?_
  by_cases hpoint : ∃ tail, cs = '.' :: tail
  · obtain ⟨tail, rfl⟩ := hpoint
    rw [matchItem_fraction_point] at hmatch
    obtain ⟨⟨n, count, left⟩, hscan, hend⟩ := exists_of_bind_ok hmatch
    obtain ⟨ds, hds, rfl, rfl⟩ := exists_scanned hscan
    cases hend
    have hdrop : (left ++ after).dropWhile isDigit = left.dropWhile isDigit ++ after := by
      rw [List.dropWhile_append, dropWhile_of_stops (stops_of_blanks hafter)]
      split
      · next hempty => rw [List.isEmpty_iff.1 hempty, List.nil_append]
      · rfl
    refine matchItems_of_ok ?_
    rw [List.cons_append, matchItem_fraction_point, (hds.append_blanks hafter).scanNumber]
    simp only [bind, Except.bind, hdrop]
  · have hhere : ∀ c ∈ cs.head?, c ≠ '.' := by
      rintro c hc rfl
      exact hpoint (List.head?_eq_some_iff.1 hc)
    have hnone : ∀ c ∈ (cs ++ after).head?, c ≠ '.' := by
      cases cs with
      | nil =>
        rintro c hc rfl
        exact absurd (hafter '.' (List.mem_of_mem_head? hc)) (by decide)
      | cons c cs => exact hhere
    rw [matchItem_fraction_none hhere] at hmatch
    cases hmatch
    exact matchItems_of_ok (matchItem_fraction_none hnone fs)

/-- Two digits in front of `rest` make the number. -/
theorem exists_of_scanPair {cs rest : List Char} {n : Nat} (h : scanPair cs = .ok (n, rest)) :
    ∃ a b, isDigit a = true ∧ isDigit b = true ∧ cs = a :: b :: rest ∧ n = Decimal.value [a, b] := by
  unfold scanPair at h
  split at h
  · cases h
  · split at h
    · next a b tail _ =>
      split at h
      · next hdigits =>
        cases h
        rw [Bool.and_eq_true] at hdigits
        exact ⟨a, b, hdigits.1, hdigits.2, rfl, rfl⟩
      · cases h
    · cases h

/-- A sign is one character, whatever follows it. -/
theorem exists_of_scanSign {cs rest : List Char} {negative : Bool}
    (h : scanSign cs = .ok (negative, rest)) :
    ∃ c, (∀ cs, scanSign (c :: cs) = .ok (negative, cs)) ∧ cs = c :: rest ∧
      (c = '+' ∨ c = '-' ∨ c = '\u2212') := by
  cases cs with
  | nil => cases h
  | cons c cs =>
    simp only [scanSign] at h
    split at h
    · next hplus =>
      cases h
      exact ⟨c, fun _ => if_pos hplus, rfl, .inl hplus⟩
    · next hplus =>
      split at h
      · next hminus =>
        cases h
        refine ⟨c, fun _ => (if_neg hplus).trans (if_pos hminus), rfl, .inr ?_⟩
        simpa using hminus
      · cases h

theorem eq_cons_of_scanColon {cs rest : List Char} (h : scanColon false cs = .ok rest) :
    cs = ':' :: rest := by
  cases cs with
  | nil => cases h
  | cons c cs =>
    simp only [scanColon, Bool.false_eq_true, if_false] at h
    split at h
    · next hc =>
      cases h
      rw [hc]
    · cases h

/-- An offset begins with its sign, and with one colon it is the same offset where colons and
blanks may stand freely, whatever is behind it. -/
theorem scanOffset_loose {cs rest : List Char} {o : Int} (h : scanOffset false cs = .ok (o, rest))
    (after : List Char) : (∃ c tail, cs = c :: tail ∧ (c = '+' ∨ c = '-' ∨ c = '\u2212')) ∧
      scanOffset true (cs ++ after) = .ok (o, rest ++ after) := by
  obtain ⟨⟨negative, cs₁⟩, hsign, h⟩ := exists_of_bind_ok h
  obtain ⟨⟨hours, cs₂⟩, hhours, h⟩ := exists_of_bind_ok h
  obtain ⟨cs₃, hcolon, h⟩ := exists_of_bind_ok h
  obtain ⟨⟨minutes, cs₄⟩, hminutes, h⟩ := exists_of_bind_ok h
  obtain ⟨c, hsigned, rfl, hc⟩ := exists_of_scanSign hsign
  obtain ⟨a, b, ha, hb, rfl, rfl⟩ := exists_of_scanPair hhours
  obtain rfl := eq_cons_of_scanColon hcolon
  obtain ⟨d, e, hd, he, rfl, rfl⟩ := exists_of_scanPair hminutes
  have hdigit : ¬((d = ':' || Text.isBlank d) = true) := by
    have hmark : d ≠ ':' := by
      rintro rfl
      cases hd
    simp [hmark, Decimal.isBlank_of_isDigit hd]
  have hloose : scanColon true (':' :: d :: e :: (cs₄ ++ after)) = .ok (d :: e :: (cs₄ ++ after)) :=
    congrArg Except.ok ((List.dropWhile_cons_of_pos rfl).trans (List.dropWhile_cons_of_neg hdigit))
  refine ⟨⟨c, _, rfl, hc⟩, ?_⟩
  simp only [List.cons_append, scanOffset, hsigned, bind, Except.bind, scanPair_digits ha hb, hloose,
    scanPair_digits hd he]
  simp only [bind, Except.bind] at h
  split at h
  · cases h
  · next hminute =>
    cases h
    rw [if_neg hminute]
    rfl

/-- The relaxed offset takes whatever the strict one takes. -/
theorem takenBy_offset : TakenBy [.offset strictOffset] [.blank, .offset relaxedOffset] := by
  refine .of_item fun fs cs fs' rest after _ hmatch => ?_
  simp only [matchItem, matchOffset, strictOffset, Bool.false_eq_true, if_false, if_true] at hmatch
  have hblank {c : Char} (hc : Text.isBlank c = false) (cs : List Char) :
      (c :: cs).dropWhile Text.isBlank = c :: cs := List.dropWhile_cons_of_neg (by simp [hc])
  split at hmatch
  · next left hletter =>
    cases hmatch
    cases cs with
    | nil => cases hletter
    | cons c cs =>
      simp only [dropWord?] at hletter
      split at hletter
      · next hz =>
        cases hletter
        have hc : Text.isBlank c = false := Bool.eq_false_of_not_eq_true fun hb => by
          have hlower := isLower_toLower_of_isBlank hb
          rw [hz] at hlower
          cases hlower
        rw [List.cons_append, matchItems, matchItem, hblank hc]
        refine matchItems_of_ok ?_
        simp only [matchItem, matchOffset, relaxedOffset, hblank hc, if_true, dropWord?, hz]
        rfl
      · cases hletter
  · obtain ⟨⟨o, left⟩, hscan, hend⟩ := exists_of_bind_ok hmatch
    cases hend
    obtain ⟨⟨c, tail, rfl, hc⟩, hloose⟩ := scanOffset_loose hscan after
    obtain ⟨hsolid, hword, hletter⟩ :
        Text.isBlank c = false ∧ c.toLower ≠ 'u' ∧ c.toLower ≠ 'z' := by
      rcases hc with rfl | rfl | rfl <;> decide
    rw [List.cons_append] at hloose
    rw [List.cons_append, matchItems, matchItem, hblank hsolid]
    refine matchItems_of_ok ?_
    simp only [matchItem, matchOffset, relaxedOffset, hblank hsolid, if_true, dropWord?,
      if_neg hword, if_neg hletter, hloose]
    rfl

theorem takenBy_relaxed : TakenBy strictItems (relaxedItems.take 18) := by
  have hdate := (((takenBy_signedYear.append (takenBy_literal (c := '-') rfl)).append
    (takenBy_number .month (w := 2) Nat.zero_lt_two)).append (takenBy_literal (c := '-') rfl)).append
    (takenBy_number .day (w := 2) Nat.zero_lt_two)
  have hclock := (((((takenBy_number .hour (w := 2) Nat.zero_lt_two).append
    (takenBy_literal (c := ':') rfl)).append
    (takenBy_number .minute (w := 2) Nat.zero_lt_two)).append (takenBy_literal (c := ':') rfl)).append
    (takenBy_number .second (w := 2) Nat.zero_lt_two)).append (takenBy_fraction.append takenBy_offset)
  exact hdate.append ((takenBy_oneOf ['T', 't', ' ']).append hclock)

/-- What the strict form takes, the relaxed form takes with white space around it. -/
theorem relaxed_of_strict {cs before after : List Char} {fs : Fields} (hb : Blanks before)
    (ha : Blanks after) (h : matchItems {} cs strictItems = .ok (fs, [])) :
    matchItems {} (before ++ cs ++ after) relaxedItems = .ok (fs, []) := by
  have hfront (cs : List Char) (items : List Item) :
      matchItems {} (before ++ cs) (.signedYear :: items) =
        matchItems {} cs (.signedYear :: items) := by
    rw [matchItems, matchItems, matchItem, matchItem, List.dropWhile_append_of_pos hb]
  have hall := takenBy_relaxed _ _ _ _ after ha h
  have hend : matchItems {} (cs ++ after) (relaxedItems.take 18 ++ [.blank]) = .ok (fs, []) := by
    rw [matchItems_append hall, List.nil_append, matchItems, matchItem,
      List.dropWhile_eq_nil_iff.2 ha]
    rfl
  rw [List.append_assoc, relaxedItems, hfront]
  exact hend

/-- The relaxed form needs a colon, and a dash or a sign as the mark of the text. -/
theorem exists_mark_of_relaxed {cs rest : List Char} {fs : Fields}
    (h : matchItems {} cs relaxedItems = .ok (fs, rest)) :
    ':' ∈ cs ∧ ∃ c, mark? cs = some c ∧ (c = '-' ∨ c = '+') := by
  have hcolon : ':' ∈ cs := by
    have hsplit : relaxedItems = relaxedItems.take 10 ++ .literal ':' :: relaxedItems.drop 11 := rfl
    exact mem_of_literal (by decide) (hsplit ▸ h)
  refine ⟨hcolon, ?_⟩
  cases hmark : mark? cs with
  | none =>
    have hfiller := mark?_eq_none_iff.1 hmark ':' hcolon
    cases hfiller
  | some c =>
    have hopens := opens_of_mark h hmark
    have hfiller : isFiller '-' = false := rfl
    simp only [relaxedItems, opens, hfiller, Bool.or_eq_true, decide_eq_true_eq] at hopens
    refine ⟨c, rfl, ?_⟩
    rcases hopens with (hplus | hminus) | hminus | hfalse
    · exact .inr hplus
    · exact .inl hminus
    · exact .inl hminus
    · cases hfalse

/-- A text that the relaxed form takes stands for no other time. -/
theorem ofText_of_readRelaxed {s : String} {t t' : Instant} (h : readRelaxed s = .ok t)
    (h' : ofText s = .ok t') : t' = t := by
  obtain ⟨fs, hmatch, ht⟩ := exists_of_parseItems h
  obtain ⟨hcolon, c, hmark, hc⟩ := exists_mark_of_relaxed hmatch
  obtain ⟨before, after, hb, ha, hs⟩ := Text.exists_trimChars s.toList
  -- what holds of the text holds of it without the white space around it
  have hblanks {cs : List Char} (hcs : Blanks cs) : mark? cs = none :=
    mark?_eq_none_iff.2 fun c hc => isFiller_of_isBlank c (hcs c hc)
  have hmarkTrim : mark? (Text.trimChars s.toList) = some c := by
    rw [hs, mark?_append, mark?_append, hblanks hb, hblanks ha, Option.none_or,
      Option.or_none] at hmark
    exact hmark
  have hcolonTrim : ':' ∈ Text.trimChars s.toList := by
    rw [hs, List.mem_append, List.mem_append] at hcolon
    rcases hcolon with (hfront | hmem) | hback
    · exact absurd (hb ':' hfront) (by decide)
    · exact hmem
    · exact absurd (ha ':' hback) (by decide)
  obtain ⟨e, hnumber⟩ := Signed.read_error_of_mem hcolonTrim rfl (by decide) (by decide)
  rw [ofText] at h'
  simp only [hnumber] at h'
  split at h'
  · next u hu =>
    cases h'
    obtain ⟨l, hl, hread⟩ := List.exists_of_findSome?_eq_some hu
    have hl : l ∈ { items := strictItems } :: layouts.tail := hl
    rcases List.mem_cons.1 hl with rfl | hother
    · obtain ⟨fs', hstrict, ht'⟩ := exists_of_parseItems (parseItems_of_read? rfl hread)
      have hloose := relaxed_of_strict hb ha hstrict
      rw [← hs, hmatch] at hloose
      cases hloose
      exact Except.ok.inj (ht'.symm.trans ht)
    · rw [read?_of_dash hmarkTrim hc hcolonTrim l hother] at hread
      cases hread
  · cases h'

end BindingRegistry.Time
