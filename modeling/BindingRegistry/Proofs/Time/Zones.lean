import BindingRegistry.Proofs.Time.Forms

/-!
Times with a zone are read by their own layouts. An offset is taken off the time
it stands behind; the name of a zone is read as universal time, whichever name it
is. The layouts that are tried before that of a form find no month, no number or
no name in capital letters in the place where they look.
-/
namespace BindingRegistry.Time

open Decimal (padded isDigit)
open Text (Blanks IsWord Spaced between)

namespace Form

section

variable {form : Form} {d : Civil} {c : Clock} {v : Nat} {more : List (List Char)} {cs : List Char}

/-- All forms but the short one begin with a letter. -/
theorem exists_plain (hform : form ≠ short) (hs : Spaced (form.front v d c ++ more) cs) :
    ∃ x rest, cs = x :: rest ∧ Plain x := by
  have hname {name : List Char} (hname : name = weekdayText d.weekday ∨
      name = (weekdayText d.weekday).take 3) (others : List Char) :
      ∃ x rest, name ++ others = x :: rest ∧ Plain x := by
    obtain ⟨x, rest, rfl, hx⟩ := exists_weekday_eq d.weekday_lt hname
    exact ⟨x, rest ++ others, rfl, hx⟩
  cases form with
  | short => exact absurd rfl hform
  | long =>
    obtain ⟨rest, -, rfl⟩ := hs.exists_front
    exact hname (.inr rfl) rest
  | dashed =>
    obtain ⟨rest, -, rfl⟩ := hs.exists_front
    rw [List.append_assoc]
    exact hname (.inl rfl) _
  | comma =>
    obtain ⟨rest, -, rfl⟩ := hs.exists_front
    rw [List.append_assoc]
    exact hname (.inr rfl) _

/-- The short form begins with a digit. -/
theorem exists_digit (hs : Spaced (short.front v d c ++ more) cs) :
    ∃ x rest, cs = x :: rest ∧ isDigit x = true := by
  obtain ⟨rest, -, rfl⟩ := hs.exists_front
  obtain ⟨x, digits, hp, hx⟩ := Decimal.exists_padded_eq v d.day
  exact ⟨x, digits ++ rest, by rw [hp]; rfl, hx⟩

theorem strict_none (hv : v ≤ 2) (hd : d.IsDate) (hs : Spaced (form.front v d c ++ more) cs) :
    (⟨strictItems, {}, none⟩ : Layout).read? cs = none := by
  refine Layout.read?_of_refuses rfl ?_
  by_cases hform : form = short
  · subst hform
    obtain ⟨rest, hrest, rfl⟩ := hs.exists_front
    have hlength := Decimal.length_padded_le hv hd.fits_day.width_pos hd.fits_day.lt_tenTo
    exact strict_refuses (fun _ hc => Decimal.isDigit_of_mem_padded hc) (by omega)
      (stops_of_ends hrest) {}
  · obtain ⟨x, rest, rfl, hx⟩ := exists_plain hform hs
    exact strict_refuses (List.forall_mem_nil _) (by decide) (stops_cons hx.digit rest) {}

/-- Where a weekday and a month are looked for only the long form has them. -/
theorem weekdayMonth_refuses (hform : form ≠ long) (hs : Spaced (form.front v d c ++ more) cs)
    (items : List Item) :
    Refuses (.weekdayName false :: .blank :: .monthName :: items) {} cs := by
  cases form with
  | long => exact absurd rfl hform
  | short =>
    obtain ⟨x, rest, rfl, hx⟩ := exists_digit hs
    exact refuses_weekdayName hx _ {} rest false
  | dashed =>
    obtain ⟨rest, -, rfl⟩ := hs.exists_front
    exact refuses_weekdayComma d.weekday_lt {} (.inl rfl) items rest
  | comma =>
    obtain ⟨rest, -, rfl⟩ := hs.exists_front
    exact refuses_weekdayComma d.weekday_lt {} (.inr rfl) items rest

/-- Where a number is looked for only the short form has one. -/
theorem number_refuses (hform : form ≠ short) (hs : Spaced (form.front v d c ++ more) cs)
    (f : Field) (w : Nat) (items : List Item) : Refuses (.number f w :: items) {} cs := by
  obtain ⟨x, rest, rfl, hx⟩ := exists_plain hform hs
  exact hx.refuses_number f w items {} rest

/-- Between the name and the day the dashed form has no dash of the comma form. -/
theorem comma_fails_dashed (hv : v ≤ 2) (hd : d.IsDate) :
    Fails dashed.frontParts {} (comma.front v d c ++ more) := by
  have hname := TakesAll.one (takes_shortWeekday d.weekday_lt {} true).word
  exact hname.fails (List.cons_ne_nil _ _) (List.cons_ne_nil _ _)
    (Fails.of_refuses fun _ hrest => hd.fits_day.refuses_numberMark hv rfl _ _ hrest)

/-- The time of day stands last before the zone. -/
theorem exists_front_eq (form : Form) (v : Nat) (d : Civil) (c : Clock) :
    ∃ before time, form.front v d c = before ++ [time] ∧ time.all Char.isUpper = false := by
  obtain ⟨x, digits, hp, hx⟩ := Decimal.exists_padded_eq 2 c.hour
  have hupper : c.shortText.all Char.isUpper = false := by
    simp [Clock.shortText, hp, Decimal.isUpper_of_isDigit hx]
  have hupper' : c.text.all Char.isUpper = false := by
    rw [Clock.text, List.all_append, hupper, Bool.false_and]
  refine ⟨(form.front v d c).dropLast, if form = short then c.shortText else c.text, ?_, ?_⟩
  · cases form <;> rfl
  · split <;> assumption

variable {zone : List Char}

theorem words_eq (hform : form ≠ long) : form.words v d c zone = form.front v d c ++ [zone] := by
  cases form with
  | long => exact absurd rfl hform
  | short | dashed | comma => rfl

/-- In all forms but the long one the word before the last is no name of a zone. -/
theorem beforeLast_none (hform : form ≠ long) (hs : Spaced (form.words v d c zone) cs)
    (items : List Item) : (⟨items, {}, some 1⟩ : Layout).read? cs = none := by
  obtain ⟨before, time, hfront, htime⟩ := exists_front_eq form v d c
  rw [words_eq hform, hfront, List.append_assoc] at hs
  exact Layout.read?_of_not_upper items {} hs htime

theorem zoneLayout_none (hzone : zone.all Char.isUpper = false)
    (hs : Spaced (form.words v d c zone) cs) : form.zoneLayout.read? cs = none := by
  rw [zoneLayout, ← length_back form d]
  exact Layout.read?_of_not_upper _ {} hs hzone

/-- Without the last word nothing is left for parts that fail on those before it. -/
theorem last_none {parts : List (List Item)} (hform : form ≠ long)
    (hfails : ∀ more, Fails parts {} (form.front v d c ++ more))
    (hs : Spaced (form.words v d c zone) cs) :
    (⟨joined parts, {}, some 0⟩ : Layout).read? cs = none := by
  rw [words_eq hform] at hs
  exact Layout.read?_of_zone_fails (hfails []) hs (front_ne_nil form v d c)

theorem read?_first_four (hd : d.IsDate) (hv : v ≤ 2) (hform : form ≠ long)
    (hs : Spaced (form.words v d c zone) cs) : ∀ l ∈ layouts.take 4, l.read? cs = none := by
  have hweekday (items : List Item) :
      (⟨.weekdayName false :: .blank :: .monthName :: items, {}, none⟩ : Layout).read? cs = none :=
    Layout.read?_of_refuses rfl (weekdayMonth_refuses hform hs items)
  have hfirst : layouts.take 4 = [⟨strictItems, {}, none⟩, ⟨longDate, {}, none⟩,
    ⟨longDate, {}, some 1⟩, ⟨offsetDate, {}, none⟩] := rfl
  rw [hfirst]
  simp only [List.forall_mem_cons]
  exact ⟨strict_none hv hd hs, hweekday _, beforeLast_none hform hs _, hweekday _,
    List.forall_mem_nil _⟩

theorem read?_first_six (hd : d.IsDate) (hv : v ≤ 2) (hform : form ≠ long) (hform' : form ≠ short)
    (hs : Spaced (form.words v d c zone) cs) : ∀ l ∈ layouts.take 6, l.read? cs = none := by
  have hnumber : (⟨shortDate ++ [.blank, .offset numericOffset], {}, none⟩ : Layout).read? cs =
    none := Layout.read?_of_refuses rfl (number_refuses hform' hs _ _ _)
  have hnamed : (⟨joined short.frontParts, {}, some 0⟩ : Layout).read? cs = none :=
    last_none hform (fun _ cs hs => (number_refuses hform' hs _ _ _).parseItems) hs
  have hfirst : layouts.take 6 = layouts.take 4 ++ [⟨joined short.frontParts, {}, some 0⟩,
    ⟨shortDate ++ [.blank, .offset numericOffset], {}, none⟩] := rfl
  rw [hfirst]
  simp only [List.forall_mem_append, List.forall_mem_cons]
  exact ⟨read?_first_four hd hv hform hs, hnamed, hnumber, List.forall_mem_nil _⟩

/-- The layouts before that of the form refuse its text, whatever stands in the place of the zone:
only a year there could be taken for one. -/
theorem read?_earlier (h : form.Covers d) (hv : v ≤ 2)
    (hyear : ∀ fs y, Fails [[.signedYear]] fs [zone, y]) (hs : Spaced (form.words v d c zone) cs) :
    ∀ l ∈ layouts.take form.place, l.read? cs = none := by
  cases form with
  | long =>
    have hplain : (⟨longDate, {}, none⟩ : Layout).read? cs = none :=
      Layout.read?_of_fails ((takes_front h c hv).fails (List.cons_ne_nil _ _)
        (List.cons_ne_nil _ _) (hyear _ _)) hs
    exact List.forall_mem_cons.2 ⟨strict_none hv h.1 hs, List.forall_mem_singleton.2 hplain⟩
  | short => exact read?_first_four h.1 hv (by decide) hs
  | dashed => exact read?_first_six h.1 hv (by decide) (by decide) hs
  | comma =>
    have hdashed : dashed.zoneLayout.read? cs = none :=
      last_none (by decide) (fun _ => comma_fails_dashed hv h.1) hs
    have hearlier : layouts.take comma.place = layouts.take 6 ++ [dashed.zoneLayout] := rfl
    rw [hearlier, List.forall_mem_append, List.forall_mem_singleton]
    exact ⟨read?_first_six h.1 hv (by decide) (by decide) hs, hdashed⟩

end

end Form

structure FirstReadBy (place : Nat) (cs : List Char) (t : Instant) : Prop where
  reads : ∃ l, layouts[place]? = some l ∧ l.read? cs = some t
  earlier : ∀ l ∈ layouts.take place, l.read? cs = none

theorem FirstReadBy.findSome? {place : Nat} {cs : List Char} {t : Instant}
    (h : FirstReadBy place cs t) : layouts.findSome? (·.read? cs) = some t := by
  obtain ⟨l, hl, hread⟩ := h.reads
  obtain ⟨hlt, rfl⟩ := List.getElem?_eq_some_iff.1 hl
  have hsplit : layouts = layouts.take place ++ layouts[place] :: layouts.drop (place + 1) := by
    rw [List.getElem_cons_drop, List.take_append_drop]
  exact List.findSome?_eq_some_iff.2 ⟨_, _, _, hsplit, hread, h.earlier⟩

namespace Form

variable {form : Form} {d : Civil} {c : Clock} {v : Nat} {zone cs : List Char}

theorem firstRead_zone (h : form.Covers d) (hv : v ≤ 2) (hzone : zone.all Char.isUpper = true)
    (hs : Spaced (form.words v d c zone) cs) :
    FirstReadBy form.place cs (d.moment (form.shown c) 0 0) := by
  have hyear (fs : Fields) (y : List Char) : Fails [[.signedYear]] fs [zone, y] := by
    have hword := hs.isWord zone (by simp [words])
    obtain ⟨x, others, rfl⟩ := List.exists_cons_of_ne_nil hword.ne_nil
    have hx := plain_of_isUpper (List.all_eq_true.1 hzone x List.mem_cons_self)
    exact Fails.of_refuses fun rest _ => hx.refuses_signedYear [] fs (others ++ rest)
  exact ⟨⟨_, form.layouts_zone, read?_zoneLayout h c hv hzone hs⟩, read?_earlier h hv hyear hs⟩

theorem firstRead_offset (h : form.Covers d) (hv : v ≤ 2) (hform : form ≠ dashed) (o : Offset)
    (hs : Spaced (form.words v d c (o.text [])) cs) :
    FirstReadBy (form.place + 1) cs (d.moment (form.shown c) 0 o.seconds) := by
  have hupper : (o.text []).all Char.isUpper = false := by
    rw [Offset.text]
    cases o.west <;> rfl
  refine ⟨⟨_, form.layouts_offset hform, read?_offsetLayout h c hv o hs⟩, ?_⟩
  rw [List.take_add_one, form.layouts_zone, List.forall_mem_append]
  exact ⟨read?_earlier h hv (fun fs y => o.fails_signedYear fs y []) hs,
    List.forall_mem_singleton.2 (zoneLayout_none hupper hs)⟩

/-- No text of a form is a number. -/
theorem exists_read_error (hs : Spaced (form.words v d c zone) cs) :
    ∃ e, Signed.read cs = .error e := by
  obtain ⟨b, hb, hblank⟩ : ∃ b ∈ cs, Text.isBlank b = true := by
    cases form <;> exact hs.exists_blank
  have hstray : ∃ b ∈ cs, isDigit b = false := ⟨b, hb, isDigit_of_isBlank hblank⟩
  by_cases hform : form = short
  · subst hform
    obtain ⟨x, rest, rfl, hx⟩ := exists_digit hs
    obtain ⟨hplus, hminus⟩ := Decimal.ne_sign_of_isDigit hx
    exact Signed.read_error_of_ne_sign hplus hminus hstray
  · obtain ⟨x, rest, rfl, hx⟩ := exists_plain hform hs
    exact Signed.read_error_of_ne_sign hx.plus hx.minus hstray

theorem ofValue_of_firstRead {place : Nat} {t : Instant} (hread : FirstReadBy place cs t)
    (hs : Spaced (form.words v d c zone) cs) {before after : List Char} (hb : Blanks before)
    (ha : Blanks after) : ofValue (.string (between before cs after)) = .ok t := by
  obtain ⟨e, he⟩ := exists_read_error hs
  simp only [ofValue, ofText, hs.trimChars_between hb ha, he, hread.findSome?]

/-- No part of a written form has a blank in it. -/
theorem isWord_words (form : Form) (v : Nat) {d : Civil} (hd : d.IsDate) (c : Clock)
    (hzone : IsWord zone) : ∀ w ∈ form.words v d c zone, IsWord w := by
  have hcomma : Text.Solid [','] := by decide
  have hlong := isWord_weekday d.weekday_lt (.inl rfl)
  have hshort := isWord_weekday d.weekday_lt (.inr rfl)
  have hday := isWord_padded v d.day
  have hmonth := isWord_month hd.month_pos hd.month_le
  have hdash : Text.Solid ('-' :: monthText d.month) := Text.Solid.cons_iff.2 ⟨rfl, hmonth.solid⟩
  cases form <;> simp only [words, front, back, List.cons_append, List.nil_append,
    List.forall_mem_cons]
  case long =>
    exact ⟨hshort, hmonth, hday, c.isWord_text, hzone, isWord_padded 4 _, List.forall_mem_nil _⟩
  case short =>
    exact ⟨hday, hmonth, isWord_padded 2 _, c.isWord_shortText, hzone, List.forall_mem_nil _⟩
  case dashed =>
    exact ⟨hlong.append hcomma, hday.append (hdash.append (Decimal.solid_marked rfl 2 _)),
      c.isWord_text, hzone, List.forall_mem_nil _⟩
  case comma =>
    exact ⟨hshort.append hcomma, hday, hmonth, isWord_padded 4 _, c.isWord_text, hzone,
      List.forall_mem_nil _⟩

end Form

section Strict

variable {d : Civil} (h : d.IsFourDigit) (c : Clock) {nanos : Nat} (o : Offset)

/-- The strict form of a time of a date, with the offset behind it. -/
def Civil.strictText (d : Civil) (c : Clock) (nanos : Nat) (o : Offset) : List Char :=
  padded 4 d.year.natAbs ++ '-' :: padded 2 d.month ++ '-' :: padded 2 d.day ++ 'T' :: c.text ++
    (fractionText nanos ++ o.text [':'])

include h

theorem strictText_eq : d.strictText c nanos o =
    (d.utc c nanos).wholeText ++ (fractionText nanos ++ o.text [':']) := by
  have hminute := c.minute_lt
  have hsecond := c.second_lt
  have hhours : c.total / 3600 = c.hour := by unfold Clock.total; omega
  have hminutes : c.total / 60 % 60 = c.minute := by unfold Clock.total; omega
  have hseconds : c.total % 60 = c.second := by unfold Clock.total; omega
  rw [Instant.wholeText, Civil.date_utc h.toIsDate, d.secondOfDay_utc, h.yearText, hhours, hminutes,
    hseconds]
  simp [Civil.strictText, Clock.text, Clock.shortText]

theorem parseItems_strictText (hnanos : nanos < nanosPerSecond) :
    parseItems {} strictItems (d.strictText c nanos o) = .ok (d.moment c nanos o.seconds) := by
  have hdate : (d.utc c nanos).date.IsFourDigit := by rwa [Civil.date_utc h.toIsDate]
  have hsign : isDigit (if o.west then '-' else '+') = false ∧
      (if o.west then '-' else '+') ≠ '.' := by
    cases o.west <;> decide
  have hend := takes_fraction hnanos hsign.1 hsign.2
    (o.takes_strict ((d.utc c nanos).fields.fractioned nanos))
  rw [strictText_eq h]
  exact ((takes_wholeText hdate).append hend).parseItems.trans
    (Instant.resolve_shifted hdate o.natAbs_seconds_lt)

theorem ofText_strictText (hnanos : nanos < nanosPerSecond) {before after : List Char}
    (hb : Blanks before) (ha : Blanks after) :
    ofText (between before (d.strictText c nanos o) after) = .ok (d.moment c nanos o.seconds) := by
  have hdate : (d.utc c nanos).date.IsFourDigit := by rwa [Civil.date_utc h.toIsDate]
  have hparse := parseItems_strictText h c o hnanos
  rw [strictText_eq h] at hparse ⊢
  have hcolon : Text.Solid [':'] := by decide
  refine ofText_strict ((solid_wholeText hdate).append ((solid_fractionText nanos).append
    (o.solid_text hcolon))) (exists_head_wholeText hdate _) ⟨':', ?_, rfl⟩ hparse hb ha
  simp [Offset.text]

end Strict

/-- Times of a date with a zone, whatever runs of white space part and surround their words. With
an offset the strict form, the long, the short and the comma form are read as the moment at which
clocks ahead by that offset show the time; with a name of capital letters all forms but the strict
one are read as if it were no offset, whatever the name is. The short form shows no seconds. It is
the layout of the form that reads the text, and no layout before it does. The words of a form may be
joined by single blanks, and where clocks are ahead by the offset the moment is just that time of
that date. -/
theorem zoned_times_read {d : Civil} (c : Clock) {before after : List Char} (hb : Blanks before)
    (ha : Blanks after) :
    (d.IsFourDigit → ∀ nanos < nanosPerSecond, ∀ o : Offset,
      ofValue (.string (between before (d.strictText c nanos o) after)) =
        .ok (d.moment c nanos o.seconds)) ∧
    ∀ form : Form, form.Covers d → ∀ v ≤ 2,
      (form ≠ .dashed → ∀ (o : Offset) (cs : List Char),
        Spaced (form.words v d c (o.text [])) cs →
          FirstReadBy (form.place + 1) cs (d.moment (form.shown c) 0 o.seconds) ∧
          ofValue (.string (between before cs after)) =
            .ok (d.moment (form.shown c) 0 o.seconds)) ∧
      (∀ zone cs : List Char, zone.all Char.isUpper = true →
        Spaced (form.words v d c zone) cs →
          FirstReadBy form.place cs (d.moment (form.shown c) 0 0) ∧
          ofValue (.string (between before cs after)) = .ok (d.moment (form.shown c) 0 0)) ∧
      (∀ zone : List Char, IsWord zone → Spaced (form.words v d c zone)
        (List.intercalate [' '] (form.words v d c zone))) ∧
      ∀ (nanos : Nat) (offset : Int),
        let there : Instant := ⟨(d.moment c nanos offset).seconds + offset, nanos⟩
        there.date = d ∧ there.secondOfDay = c.total := by
  refine ⟨fun h nanos hnanos o => ofText_strictText h c o hnanos hb ha,
    fun form h v hv => ⟨fun hform o cs hs => ?_, fun zone cs hzone hs => ?_, fun zone hzone => ?_,
      fun nanos offset => ?_⟩⟩
  · have hread := form.firstRead_offset h hv hform o hs
    exact ⟨hread, Form.ofValue_of_firstRead hread hs hb ha⟩
  · have hread := form.firstRead_zone h hv hzone hs
    exact ⟨hread, Form.ofValue_of_firstRead hread hs hb ha⟩
  · exact Text.spaced_intercalate (List.append_ne_nil_of_left_ne_nil (form.front_ne_nil v d c) _)
      (form.isWord_words v h.1 c hzone)
  · have hthere : (d.moment c nanos offset).seconds + offset = (d.utc c nanos).seconds :=
      Int.sub_add_cancel _ _
    rw [hthere]
    exact ⟨Civil.date_utc h.1 c nanos, d.secondOfDay_utc c nanos⟩

/-- The first half hour of 2000 is in the year before where clocks are ahead, and in the new year
under any name of a zone. -/
theorem first_half_hour_read :
    let eve : Instant := ⟨946676700, 0⟩
    let day : Instant := ⟨946686600, 0⟩
    eve.date = ⟨1999, 12, 31⟩ ∧ day.date = ⟨2000, 1, 1⟩ ∧
    ofValue (.string " 2000-01-01T00:30:00+02:45") = .ok eve ∧
    ofValue (.string " Sat Jan 01 00:30:00 +0245 2000") = .ok eve ∧
    ofValue (.string " Saturday, 01-Jan-00 00:30:00 MSK") = .ok day ∧
    ofValue (.string " Sat Jan  1 00:30:00 MSK 2000") = .ok day := by
  intro eve day
  let d : Civil := ⟨2000, 1, 1⟩
  let c : Clock := ⟨0, 30, 0, by decide, by decide, by decide⟩
  let o : Offset := ⟨false, 2, 45, by decide, by decide⟩
  let zone := ['M', 'S', 'K']
  have hblank : Blanks [' '] := by decide
  have hblanks : Blanks [' ', ' '] := by decide
  have hdate : d.IsDate := ⟨by decide, by decide, by decide, by decide⟩
  have hlong : Form.long.Covers d := ⟨hdate, by decide⟩
  have hdashed : Form.dashed.Covers d := ⟨hdate, by decide⟩
  have hzone : IsWord zone := ⟨by decide, by decide⟩
  have hoffset : IsWord (o.text []) := ⟨by decide +kernel, by decide +kernel⟩
  obtain ⟨hstrict, hforms⟩ := zoned_times_read (d := d) c hblank (List.forall_mem_nil _)
  obtain ⟨hahead, -, hjoined, -⟩ := hforms .long hlong 2 (Nat.le_refl 2)
  obtain ⟨-, hnamed, hjoined', -⟩ := hforms .dashed hdashed 2 (Nat.le_refl 2)
  obtain ⟨-, hpadded, -⟩ := hforms .long hlong 0 (Nat.zero_le 2)
  -- the day is padded with a blank
  have hspaced : ∃ cs, Spaced (Form.long.words 0 d c zone) cs ∧
      between [' '] cs [] = " Sat Jan  1 00:30:00 MSK 2000" := by
    have hwords := Form.long.isWord_words 0 hdate c hzone
    simp only [Form.words, Form.front, Form.back, List.cons_append, List.nil_append,
      List.forall_mem_cons] at hwords
    obtain ⟨hweekday, hmonth, hday, htime, hname, hyear, -⟩ := hwords
    have hone := List.cons_ne_nil ' ' []
    exact ⟨_, .cons hweekday hblank hone (.cons hmonth hblanks (List.cons_ne_nil _ _)
      (.cons hday hblank hone (.cons htime hblank hone (.cons hname hblank hone
        (.word hyear))))), by decide +kernel⟩
  obtain ⟨cs, hcs, hpaddedText⟩ := hspaced
  have hstrictText : between [' '] (d.strictText c 0 o) [] = " 2000-01-01T00:30:00+02:45" := by
    decide +kernel
  have hlongText : between [' '] (List.intercalate [' '] (Form.long.words 2 d c (o.text []))) [] =
    " Sat Jan 01 00:30:00 +0245 2000" := by decide +kernel
  have hdashedText : between [' '] (List.intercalate [' '] (Form.dashed.words 2 d c zone)) [] =
    " Saturday, 01-Jan-00 00:30:00 MSK" := by decide +kernel
  have heve : d.moment c 0 o.seconds = eve := by decide
  have hday : d.moment c 0 0 = day := by decide
  have hread := hstrict hlong.isFourDigit 0 (by decide) o
  have hread₁ := (hahead (by decide) o _ (hjoined _ hoffset)).2
  have hread₂ := (hnamed zone _ (by decide) (hjoined' _ hzone)).2
  have hread₃ := (hpadded zone _ (by decide) hcs).2
  rw [hstrictText, heve] at hread
  rw [hlongText] at hread₁
  rw [hdashedText] at hread₂
  rw [hpaddedText] at hread₃
  exact ⟨by decide, by decide, hread, heve ▸ hread₁, hday ▸ hread₂, hday ▸ hread₃⟩

end BindingRegistry.Time
