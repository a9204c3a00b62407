import BindingRegistry.Proofs.Number.Spelling
import BindingRegistry.Proofs.Text.Words
import BindingRegistry.Time.Reading

/-!
What the items of a layout do with the front of a text. Numbers that have their
full width, and marks, are taken whatever stands behind them, so a text is read
piece by piece. A layout refuses a text as soon as one item does, and items that
look for a name refuse every digit.
-/
namespace BindingRegistry.Time

open Decimal (padded padded_ne_nil isDigit)

/-- The items take the text from the front of any other and go from the first fields to the
second. -/
def Takes (items : List Item) (fs : Fields) (cs : List Char) (fs' : Fields) : Prop :=
  ∀ more rest, matchItems fs (cs ++ rest) (items ++ more) = matchItems fs' rest more

def Refuses (items : List Item) (fs : Fields) (cs : List Char) : Prop :=
  ∃ e, matchItems fs cs items = .error e

theorem matchItems_of_ok {item : Item} {items : List Item} {fs fs' : Fields} {cs rest : List Char}
    (h : matchItem item fs cs = .ok (fs', rest)) :
    matchItems fs cs (item :: items) = matchItems fs' rest items := by
  rw [matchItems, h]

theorem Takes.append {items more : List Item} {fs fs' fs'' : Fields} {cs ds : List Char}
    (h : Takes items fs cs fs') (hmore : Takes more fs' ds fs'') :
    Takes (items ++ more) fs (cs ++ ds) fs'' := by
  intro others rest
  rw [List.append_assoc, List.append_assoc, h, hmore]

theorem Takes.of_item {item : Item} {fs fs' : Fields} {cs : List Char}
    (h : ∀ rest, matchItem item fs (cs ++ rest) = .ok (fs', rest)) : Takes [item] fs cs fs' :=
  fun _ rest => matchItems_of_ok (h rest)

theorem parseItems_of_ok {items : List Item} {start fs : Fields} {cs : List Char}
    (h : matchItems start cs items = .ok (fs, [])) : parseItems start items cs = fs.resolve := by
  rw [parseItems, h]
  rfl

theorem Takes.matchItems {items : List Item} {fs fs' : Fields} {cs : List Char}
    (h : Takes items fs cs fs') : matchItems fs cs items = .ok (fs', []) := by
  have hall := h [] []
  rwa [List.append_nil, List.append_nil] at hall

/-- A layout that takes the whole text reads what its fields name. -/
theorem Takes.parseItems {items : List Item} {start fs : Fields} {cs : List Char}
    (h : Takes items start cs fs) : parseItems start items cs = fs.resolve :=
  parseItems_of_ok h.matchItems

theorem Refuses.parseItems {items : List Item} {start : Fields} {cs : List Char}
    (h : Refuses items start cs) : (parseItems start items cs).toOption = none := by
  obtain ⟨e, he⟩ := h
  rw [Time.parseItems, he]
  rfl

theorem Refuses.of_item {item : Item} {fs : Fields} {cs : List Char} (items : List Item)
    {e : Fault} (h : matchItem item fs cs = .error e) : Refuses (item :: items) fs cs :=
  ⟨e, by rw [matchItems, h]⟩

theorem Takes.refuses {items more : List Item} {fs fs' : Fields} {cs rest : List Char}
    (h : Takes items fs cs fs') (hmore : Refuses more fs' rest) :
    Refuses (items ++ more) fs (cs ++ rest) := by
  obtain ⟨e, he⟩ := hmore
  exact ⟨e, by rw [h, he]⟩

/-- The end of the text, or a character that is no digit. -/
def Stops (rest : List Char) : Prop := ∀ c ∈ rest.head?, isDigit c = false

theorem stops_nil : Stops [] := by simp [Stops]

theorem stops_cons {c : Char} (hc : isDigit c = false) (rest : List Char) : Stops (c :: rest) := by
  rintro d ⟨⟩
  exact hc

theorem takeWhile_of_stops {rest : List Char} (h : Stops rest) : rest.takeWhile isDigit = [] := by
  cases rest with
  | nil => rfl
  | cons c rest => simp [h c rfl]

theorem dropWhile_of_stops {rest : List Char} (h : Stops rest) : rest.dropWhile isDigit = rest := by
  cases rest with
  | nil => rfl
  | cons c rest => exact List.dropWhile_cons_of_neg (by simp [h c rfl])

theorem Stops.take {rest : List Char} (h : Stops rest) (n : Nat) : Stops (rest.take n) := by
  cases n with
  | zero => exact stops_nil
  | succ n =>
    cases rest with
    | nil => exact h
    | cons c rest => exact h

/-- Digits are all taken if there are as many as may be, or nothing behind them goes on. -/
theorem scanNumber_digits {least most : Nat} {ds rest : List Char}
    (hds : ∀ c ∈ ds, isDigit c = true) (hleast : least ≤ ds.length) (hmost : ds.length ≤ most)
    (hend : ds.length = most ∨ Stops rest) :
    scanNumber least most (ds ++ rest) = .ok (Decimal.value ds, ds.length, rest) := by
  have hstop : Stops (rest.take (most - ds.length)) := by
    rcases hend with rfl | hstops
    · rw [Nat.sub_self]
      exact stops_nil
    · exact hstops.take _
  have hfront : ((ds ++ rest).take most).takeWhile isDigit = ds := by
    rw [List.take_append, List.take_of_length_le hmost, List.takeWhile_append_of_pos hds,
      takeWhile_of_stops hstop, List.append_nil]
  have hlong : ¬(ds ++ rest).length < least := by rw [List.length_append]; omega
  simp only [scanNumber, hfront]
  rw [if_neg hlong, if_neg (by omega), List.drop_left]

theorem scanNumber_padded {w n : Nat} (hw : 0 < w) (hn : n < tenTo w) {least : Nat}
    (hleast : least ≤ w) (rest : List Char) :
    scanNumber least w (padded w n ++ rest) = .ok (n, w, rest) := by
  have hlength := Decimal.length_padded hw hn
  have hall : ∀ c ∈ padded w n, isDigit c = true := fun _ hc => Decimal.isDigit_of_mem_padded hc
  rw [scanNumber_digits hall (hlength.symm ▸ hleast) (Nat.le_of_eq hlength) (.inl hlength),
    Decimal.value_padded, hlength]

/-- Fewer digits than the least are refused. -/
theorem scanNumber_short {least : Nat} (most : Nat) {ds rest : List Char}
    (hds : ∀ c ∈ ds, isDigit c = true) (hshort : ds.length < least) (hstop : Stops rest) :
    ∃ e, scanNumber least most (ds ++ rest) = .error e := by
  have hfront : ((ds ++ rest).take most).takeWhile isDigit = ds.take most := by
    rw [← List.take_takeWhile, List.takeWhile_append_of_pos hds, takeWhile_of_stops hstop,
      List.append_nil]
  have hfew : (ds.take most).length < least :=
    Nat.lt_of_le_of_lt (List.length_take_le' most ds) hshort
  simp only [scanNumber, hfront, if_pos hfew]
  split
  · exact ⟨_, rfl⟩
  · exact ⟨_, rfl⟩

theorem dropWhile_digits {ds : List Char} (hds : ∀ c ∈ ds, isDigit c = true) (hne : ds ≠ [])
    (rest : List Char) : (ds ++ rest).dropWhile Text.isBlank = ds ++ rest :=
  Text.dropWhile_blanks (fun _ hc => absurd hc List.not_mem_nil) (Decimal.solid_of_isDigit hds) hne

theorem setField_of_bounds {f : Field} {n : Int} (hlow : f.least ≤ n) (hhigh : n ≤ f.greatest)
    (fs : Fields) (rest : List Char) : setField fs f n rest = .ok (fs.set f n, rest) :=
  if_pos (by simp [hlow, hhigh])

/-- A number is noted in its field or refused. -/
theorem setField_cases (fs : Fields) (f : Field) (n : Int) (rest : List Char) :
    (∃ fs', setField fs f n rest = .ok (fs', rest)) ∨ ∃ e, setField fs f n rest = .error e := by
  unfold setField
  split
  · exact .inl ⟨_, rfl⟩
  · exact .inr ⟨_, rfl⟩

/-- The field can hold the number, and `w` digits can write it. -/
structure Field.Fits (f : Field) (w n : Nat) : Prop where
  width_pos : 0 < w
  lt_tenTo : n < tenTo w
  least_le : f.least ≤ n
  le_greatest : n ≤ f.greatest

theorem Field.fits_year {n : Nat} (h : n ≤ 9999) : Field.year.Fits 4 n := by
  refine ⟨by decide, Nat.lt_succ_of_le h, ?_, ?_⟩ <;> simp only [Field.least, Field.greatest] <;>
    omega

theorem Field.fits_two {f : Field} (hf : f ≠ .year) {n : Nat} (hlow : f.least.toNat ≤ n)
    (hhigh : n ≤ f.greatest.toNat) : f.Fits 2 n := by
  have hbounds : 0 < f.greatest ∧ f.greatest < 100 := by
    cases f <;> first | decide | exact absurd rfl hf
  refine ⟨by decide, ?_, by omega, by omega⟩
  show n < 100
  omega

/-- Digits are taken for a number if there are as many as may be, or nothing behind them goes on. -/
theorem matchItem_number_digits {ds : List Char} {w : Nat} (hds : ∀ c ∈ ds, isDigit c = true)
    (hne : ds ≠ []) (hle : ds.length ≤ w) (rest : List Char) (hend : ds.length = w ∨ Stops rest)
    (f : Field) (fs : Fields) :
    matchItem (.number f w) fs (ds ++ rest) = setField fs f (Decimal.value ds) rest := by
  have hpos : 1 ≤ ds.length := List.length_pos_iff.2 hne
  rw [matchItem, dropWhile_digits hds hne, scanNumber_digits hds hpos hle hend]
  rfl

/-- A year may be written without a sign in up to four digits. -/
theorem matchItem_signedYear_digits {ds : List Char} (hds : ∀ c ∈ ds, isDigit c = true)
    (hne : ds ≠ []) (hle : ds.length ≤ 4) (rest : List Char) (hend : ds.length = 4 ∨ Stops rest)
    (fs : Fields) :
    matchItem .signedYear fs (ds ++ rest) = setField fs .year (Decimal.value ds) rest := by
  have hscan := scanNumber_digits hds (List.length_pos_iff.2 hne) hle hend
  have hdrop := dropWhile_digits hds hne rest
  obtain ⟨c, cs, rfl⟩ := List.exists_cons_of_ne_nil hne
  obtain ⟨hplus, hminus⟩ := Decimal.ne_sign_of_isDigit (hds c List.mem_cons_self)
  rw [List.cons_append] at hdrop hscan ⊢
  rw [matchItem, hdrop]
  -- digits leave only the branch without a sign
  split
  · next heq => exact absurd (List.cons.inj heq).1 hminus
  · next heq => exact absurd (List.cons.inj heq).1 hplus
  · rw [hscan]
    rfl

section Numbers

variable {f : Field} {w n : Nat}

theorem Field.Fits.takes_digits (h : f.Fits w n) (fs : Fields) :
    Takes [.digits f w] fs (padded w n) (fs.set f n) := by
  refine Takes.of_item fun rest => ?_
  rw [matchItem, scanNumber_padded h.width_pos h.lt_tenTo (Nat.le_refl w)]
  exact setField_of_bounds h.least_le h.le_greatest fs rest

theorem Field.Fits.takes_number (h : f.Fits w n) (fs : Fields) :
    Takes [.number f w] fs (padded w n) (fs.set f n) := by
  have hlength := Decimal.length_padded h.width_pos h.lt_tenTo
  refine Takes.of_item fun rest => ?_
  rw [matchItem_number_digits (fun _ hc => Decimal.isDigit_of_mem_padded hc) (padded_ne_nil w n)
    (Nat.le_of_eq hlength) rest (.inl hlength), Decimal.value_padded]
  exact setField_of_bounds h.least_le h.le_greatest fs rest

/-- A number is refused by itself, or what follows it is. -/
theorem refuses_number {ds : List Char} (hds : ∀ c ∈ ds, isDigit c = true) (hne : ds ≠ [])
    (hlength : ds.length = w) {items : List Item} {rest : List Char} (fs : Fields)
    (h : ∀ fs, Refuses items fs rest) : Refuses (.number f w :: items) fs (ds ++ rest) := by
  have hitem := matchItem_number_digits hds hne (Nat.le_of_eq hlength) rest (.inl hlength) f fs
  rcases setField_cases fs f (Decimal.value ds) rest with ⟨fs', hset⟩ | ⟨e, hset⟩
  · obtain ⟨e, he⟩ := h fs'
    exact ⟨e, (matchItems_of_ok (hitem.trans hset)).trans he⟩
  · exact .of_item items (hitem.trans hset)

end Numbers

theorem takes_signedYear {n : Nat} (h : n ≤ 9999) (fs : Fields) :
    Takes [.signedYear] fs (padded 4 n) (fs.set .year n) := by
  have hfits := Field.fits_year h
  have hlength := Decimal.length_padded hfits.width_pos hfits.lt_tenTo
  refine Takes.of_item fun rest => ?_
  rw [matchItem_signedYear_digits (fun _ hc => Decimal.isDigit_of_mem_padded hc)
    (padded_ne_nil 4 n) (Nat.le_of_eq hlength) rest (.inl hlength), Decimal.value_padded]
  exact setField_of_bounds hfits.least_le hfits.le_greatest fs rest

theorem Refuses.blank {items : List Item} {fs : Fields} {c : Char} {rest : List Char}
    (h : Refuses items fs (c :: rest)) (hc : Text.isBlank c = false) :
    Refuses (.blank :: items) fs (c :: rest) := by
  obtain ⟨e, he⟩ := h
  refine ⟨e, ?_⟩
  rw [matchItems, matchItem, List.dropWhile_cons_of_neg (by simp [hc])]
  exact he

theorem takes_literal (c : Char) (fs : Fields) : Takes [.literal c] fs [c] fs :=
  .of_item fun _ => if_pos rfl

theorem refuses_literal {c c' : Char} (hc : c' ≠ c) (items : List Item) (fs : Fields)
    (rest : List Char) : Refuses (.literal c :: items) fs (c' :: rest) :=
  .of_item items (if_neg hc)

/-- A mark and a number in all its digits. -/
theorem Field.Fits.takes_marked {f : Field} {w n : Nat} (h : f.Fits w n) (c : Char) (fs : Fields) :
    Takes [.literal c, .digits f w] fs (c :: padded w n) (fs.set f n) :=
  (takes_literal c fs).append (h.takes_digits fs)

theorem Field.Fits.takes_markedNumber {f : Field} {w n : Nat} (h : f.Fits w n) (c : Char)
    (fs : Fields) : Takes [.literal c, .number f w] fs (c :: padded w n) (fs.set f n) :=
  (takes_literal c fs).append (h.takes_number fs)

/-- Behind the point up to nine digits count, and all are dropped. -/
theorem matchItem_fraction_point (fs : Fields) (cs : List Char) :
    matchItem .fraction fs ('.' :: cs) = scanNumber 1 9 cs >>= fun p =>
      .ok ({ fs with nanos := some (p.1 * tenTo (9 - p.2.1)) }, p.2.2.dropWhile isDigit) := by
  rw [matchItem, scanFraction]
  cases scanNumber 1 9 cs <;> rfl

theorem matchItem_fraction_none {cs : List Char} (h : ∀ c ∈ cs.head?, c ≠ '.') (fs : Fields) :
    matchItem .fraction fs cs = .ok (fs, cs) := by
  rw [matchItem]
  rintro rest rfl
  exact h '.' rfl rfl

theorem takes_oneOf {c : Char} {choices : List Char} (hc : choices.contains c = true)
    (fs : Fields) : Takes [.oneOf choices] fs [c] fs :=
  .of_item fun _ => if_pos hc

theorem refuses_oneOf_nil (choices : List Char) (items : List Item) (fs : Fields) :
    Refuses (.oneOf choices :: items) fs [] :=
  .of_item items rfl

/-- No name in letters begins with anything else. -/
theorem findName_other {c : Char} (hc : c.toLower.isLower = false) {names : List String}
    (hnames : ∀ name ∈ names, name.toList.head?.any Char.isLower = true) (i : Nat)
    (rest : List Char) : findName i (c :: rest) names = none := by
  induction names generalizing i with
  | nil => rfl
  | cons name names ih =>
    have hname := hnames name List.mem_cons_self
    have hdrop : dropWord? name.toList (c :: rest) = none := by
      cases hw : name.toList with
      | nil => simp [hw] at hname
      | cons w ws =>
        have hother : c.toLower ≠ w := by
          rintro rfl
          simp [hw, hc] at hname
        rw [dropWord?, if_neg hother]
    rw [findName, hdrop]
    exact ih (fun other hother => hnames other (List.mem_cons_of_mem name hother)) (i + 1)

section Names

variable {c : Char} (hc : isDigit c = true) (items : List Item) (fs : Fields) (rest : List Char)
include hc

theorem refuses_monthName : Refuses (.monthName :: items) fs (c :: rest) := by
  refine .of_item items (e := .invalid) ?_
  rw [matchItem, findName_other (Decimal.isLower_toLower_of_isDigit hc) (by decide)]

theorem refuses_weekdayName (long : Bool) :
    Refuses (.weekdayName long :: items) fs (c :: rest) := by
  refine .of_item items (e := .invalid) ?_
  rw [matchItem, findName_other (Decimal.isLower_toLower_of_isDigit hc) (by decide)]

end Names

/-- No name of a zone can be taken out of a single word that begins with a digit. -/
theorem withoutZone?_digit {c : Char} (hc : isDigit c = true) {cs : List Char}
    (h : Text.Solid (c :: cs)) (place : Nat) : withoutZone? place (c :: cs) = none := by
  have hwords := Text.words_of_solid h
  cases place with
  | zero => simp [withoutZone?, hwords, Decimal.isUpper_of_isDigit hc]
  | succ place => simp [withoutZone?, hwords]

theorem Layout.read?_of_refuses {l : Layout} {cs : List Char} (hzone : l.zone = none)
    (h : Refuses l.items l.start cs) : l.read? cs = none := by
  rw [Layout.read?, hzone]
  exact h.parseItems

theorem Layout.read?_of_ok {l : Layout} {cs : List Char} {t : Instant} (hzone : l.zone = none)
    (h : parseItems l.start l.items cs = .ok t) : l.read? cs = some t := by
  rw [Layout.read?, hzone]
  simp only [h]
  rfl

/-- A single word that begins with three digits is refused by every layout from the second one to
the first plain date: it has no zone to take out, no weekday or month in front or behind a day, and
no colon behind an hour. -/
theorem read?_named_layouts {a b c : Char} (ha : isDigit a = true) (hb : isDigit b = true)
    (hc : isDigit c = true) {rest : List Char} (hsolid : Text.Solid (a :: b :: c :: rest)) :
    ∀ l ∈ (layouts.take 14).tail, l.read? (a :: b :: c :: rest) = none := by
  have hzone (items : List Item) (start : Fields) (place : Nat) :
      (⟨items, start, some place⟩ : Layout).read? (a :: b :: c :: rest) = none := by
    simp only [Layout.read?, withoutZone?_digit ha hsolid]
    rfl
  have hweekday (items : List Item) (long : Bool) :
      (⟨.weekdayName long :: items, {}, none⟩ : Layout).read? (a :: b :: c :: rest) = none :=
    Layout.read?_of_refuses rfl (refuses_weekdayName ha items {} _ long)
  have hmonth (items : List Item) (start : Fields) :
      (⟨.monthName :: items, start, none⟩ : Layout).read? (a :: b :: c :: rest) = none :=
    Layout.read?_of_refuses rfl (refuses_monthName ha items start _)
  have hpair : ∀ d ∈ [a, b], isDigit d = true := by simp [ha, hb]
  have hday (items : List Item) :
      (⟨.number .day 2 :: .blank :: .monthName :: items, {}, none⟩ : Layout).read?
        (a :: b :: c :: rest) = none := by
    refine Layout.read?_of_refuses rfl ?_
    refine refuses_number hpair (List.cons_ne_nil a [b]) rfl {} fun fs => ?_
    exact (refuses_monthName hc items fs rest).blank (Decimal.isBlank_of_isDigit hc)
  have hhour (items : List Item) (start : Fields) :
      (⟨.number .hour12 2 :: .literal ':' :: items, start, none⟩ : Layout).read?
        (a :: b :: c :: rest) = none := by
    refine Layout.read?_of_refuses rfl ?_
    refine refuses_number hpair (List.cons_ne_nil a [b]) rfl start fun fs => ?_
    have hcolon : c ≠ ':' := by rintro rfl; revert hc; decide
    exact refuses_literal hcolon items fs rest
  simp only [layouts, List.take_succ_cons, List.take_zero, List.tail_cons, List.forall_mem_cons]
  exact ⟨hweekday _ _, hzone _ _ _, hweekday _ _, hzone _ _ _, hday _, hzone _ _ _, hzone _ _ _,
    hweekday _ _, hhour _ _, hmonth _ _, hmonth _ _, hmonth _ _, hmonth _ _, List.forall_mem_nil _⟩

end BindingRegistry.Time
