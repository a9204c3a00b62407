import BindingRegistry.Proofs.Time.Millis

/-!
A day in all the ways it can be written. The three plain forms, the strict form
of its midnight, and the milliseconds of that midnight, as a number or as a text,
stand for one instant, and different days for different instants. Each form is
read by its own layout; those that are tried before it refuse the text.
-/
namespace BindingRegistry.Time

open Decimal (padded padded_ne_nil solid_padded solid_marked isDigit)
open Text (Blanks Solid between)

def Civil.midnight (d : Civil) : Instant := ⟨d.dayNumber * secondsPerDay, 0⟩

theorem Civil.date_midnight {d : Civil} (h : d.IsDate) : d.midnight.date = d := by
  have hpos : secondsPerDay ≠ 0 := by decide
  rw [Instant.date, Civil.midnight, Int.mul_ediv_cancel _ hpos, Civil.ofDayNumber_dayNumber h]

theorem Civil.secondOfDay_midnight (d : Civil) : d.midnight.secondOfDay = 0 := by
  rw [Instant.secondOfDay, Civil.midnight, Int.mul_emod_left]
  rfl

theorem Civil.midnight_injective {d e : Civil} (hd : d.IsDate) (he : e.IsDate)
    (h : d.midnight = e.midnight) : d = e := by
  have hseconds : d.dayNumber * secondsPerDay = e.dayNumber * secondsPerDay :=
    congrArg Instant.seconds h
  exact Civil.dayNumber_injective hd he (Int.eq_of_mul_eq_mul_right (by decide) hseconds)

inductive DayForm where
  | moment
  | dashes
  | dots
  | slashes
  deriving DecidableEq, Repr

namespace DayForm

/-- The text behind the year; with slashes the day stands before the month. -/
def afterYear (form : DayForm) (d : Civil) : List Char :=
  let month := padded 2 d.month
  let day := padded 2 d.day
  match form with
  | moment => '-' :: month ++ '-' :: day ++ "T00:00:00Z".toList
  | dashes => '-' :: month ++ '-' :: day
  | dots => '.' :: month ++ '.' :: day
  | slashes => '/' :: day ++ '/' :: month

def chars (form : DayForm) (d : Civil) : List Char := padded 4 d.year.natAbs ++ form.afterYear d

/-- The place of the form's layout among all of them. -/
def place : DayForm → Nat
  | moment => 0
  | dashes => 14
  | dots => 15
  | slashes => 16

end DayForm

theorem chars_midnight {d : Civil} (h : d.IsFourDigit) :
    d.midnight.chars = DayForm.moment.chars d := by
  have hzero : padded 2 0 = ['0', '0'] := by
    rw [padded, Decimal.digits]
    rfl
  have hclock : "T00:00:00Z".toList = 'T' :: padded 2 0 ++ ':' :: padded 2 0 ++ ':' :: padded 2 0 ++
      (fractionText 0 ++ ['Z']) := by
    rw [hzero]
    rfl
  rw [d.midnight.chars_eq (by decide : 0 < nanosPerSecond), Instant.wholeText,
    Civil.date_midnight h.toIsDate, Civil.secondOfDay_midnight, h.yearText, DayForm.chars,
    DayForm.afterYear, hclock]
  simp [Civil.midnight]

def Civil.fields (d : Civil) : Fields where
  year := some d.year
  month := some d.month
  day := some d.day
  hour := some 0
  minute := some 0

theorem resolve_fields {d : Civil} (h : d.IsFourDigit) : d.fields.resolve = .ok d.midnight := by
  have hdate : d.fields.date = .ok d := date_eq h rfl rfl rfl rfl
  have htime : d.fields.time = .ok (0, 0) := rfl
  have hresolve := resolve_eq h hdate htime rfl (Int.le_refl 0) (by decide)
  rwa [Int.add_zero] at hresolve

/-- Three numbers between marks are read whole as a date, whichever of them is the month. -/
theorem read?_plainDate {d : Civil} (h : d.IsFourDigit) (mark : Char) {f g : Field} {m n : Nat}
    (hm : f.Fits 2 m) (hn : g.Fits 2 n)
    (hfields : (((plainDate mark f g).start.set .year d.year).set f m).set g n = d.fields) :
    (plainDate mark f g).read?
      (padded 4 d.year.natAbs ++ (mark :: padded 2 m ++ mark :: padded 2 n)) = some d.midnight := by
  have hyear : (d.year.natAbs : Int) = d.year := Int.natAbs_of_nonneg h.year_nonneg
  have htakes := (takes_signedYear h.natAbs_year_le (plainDate mark f g).start).append
    ((hm.takes_markedNumber mark _).append (hn.takes_markedNumber mark _))
  rw [hyear, hfields] at htakes
  exact Layout.read?_of_ok rfl (htakes.parseItems.trans (resolve_fields h))

namespace DayForm

def layout : DayForm → Layout
  | moment => { items := strictItems }
  | dashes => plainDate '-' .month .day
  | dots => plainDate '.' .month .day
  | slashes => plainDate '/' .day .month

theorem layouts_eq (form : DayForm) :
    layouts = layouts.take form.place ++ form.layout :: layouts.drop (form.place + 1) := by
  cases form <;> rfl

/-- Each form is taken whole by its own layout. -/
theorem read?_layout (form : DayForm) {d : Civil} (h : d.IsFourDigit) :
    form.layout.read? (form.chars d) = some d.midnight := by
  cases form with
  | moment =>
    have hdate : d.midnight.date.IsFourDigit := by rwa [Civil.date_midnight h.toIsDate]
    have hwhole : d.midnight.nanos < nanosPerSecond := (by decide : 0 < nanosPerSecond)
    rw [← chars_midnight h]
    exact Layout.read?_of_ok rfl (parseItems_chars hdate hwhole)
  | dashes => exact read?_plainDate h '-' h.fits_month h.fits_day rfl
  | dots => exact read?_plainDate h '.' h.fits_month h.fits_day rfl
  | slashes => exact read?_plainDate h '/' h.fits_day h.fits_month rfl

def mark : DayForm → Char
  | moment | dashes => '-'
  | dots => '.'
  | slashes => '/'

theorem solid_afterYear (form : DayForm) (d : Civil) : Solid (form.afterYear d) := by
  have hclock : Solid "T00:00:00Z".toList := by decide
  cases form with
  | moment => exact ((solid_marked rfl 2 _).append (solid_marked rfl 2 _)).append hclock
  | dashes | dots | slashes => exact (solid_marked rfl 2 _).append (solid_marked rfl 2 _)

theorem exists_afterYear_eq (form : DayForm) (d : Civil) :
    ∃ tail, form.afterYear d = form.mark :: tail := by
  cases form <;> exact ⟨_, rfl⟩

theorem isDigit_mark (form : DayForm) : isDigit form.mark = false := by cases form <;> rfl

/-- The strict form misses its dash in two of the plain dates, and the time of day in the third. -/
theorem strict_refuses (form : DayForm) (hform : form ≠ moment) {d : Civil} (h : d.IsFourDigit) :
    Refuses strictItems {} (form.chars d) := by
  have hyear := h.fits_year.takes_digits {}
  cases form with
  | moment => exact absurd rfl hform
  | dashes =>
    have htakes := hyear.append ((h.fits_month.takes_marked '-' _).append
      (h.fits_day.takes_marked '-' _))
    have hend := htakes.refuses (refuses_oneOf_nil ['T', 't', ' '] (strictItems.drop 6) _)
    rw [List.append_nil] at hend
    exact hend
  | dots => exact hyear.refuses (refuses_literal (by decide) (strictItems.drop 2) _ _)
  | slashes => exact hyear.refuses (refuses_literal (by decide) (strictItems.drop 2) _ _)

theorem exists_three_digits {d : Civil} (h : d.IsFourDigit) : ∃ a b c rest,
    padded 4 d.year.natAbs = a :: b :: c :: rest ∧
      isDigit a = true ∧ isDigit b = true ∧ isDigit c = true := by
  have hall : ∀ c ∈ padded 4 d.year.natAbs, isDigit c = true :=
    fun _ hc => Decimal.isDigit_of_mem_padded hc
  have hlength := Decimal.length_padded h.fits_year.width_pos h.fits_year.lt_tenTo
  match hp : padded 4 d.year.natAbs, hlength with
  | a :: b :: c :: rest, _ =>
    rw [hp] at hall
    exact ⟨a, b, c, rest, rfl, hall a (by simp), hall b (by simp), hall c (by simp)⟩

theorem solid_chars (form : DayForm) (d : Civil) : Solid (form.chars d) :=
  (solid_padded 4 _).append (form.solid_afterYear d)

/-- The layouts before the plain dates refuse every plain date. -/
theorem read?_before_plain (form : DayForm) (hform : form ≠ moment) {d : Civil}
    (h : d.IsFourDigit) : ∀ l ∈ layouts.take 14, l.read? (form.chars d) = none := by
  have hstrict := strict_refuses form hform h
  have hsolid := form.solid_chars d
  obtain ⟨a, b, c, rest, hyear, ha, hb, hc⟩ := exists_three_digits h
  have hchars : form.chars d = a :: b :: c :: (rest ++ form.afterYear d) := by
    rw [chars, hyear]
    rfl
  rw [hchars] at hstrict hsolid ⊢
  have hfirst : layouts.take 14 = { items := strictItems } :: (layouts.take 14).tail := rfl
  rw [hfirst]
  exact List.forall_mem_cons.2
    ⟨Layout.read?_of_refuses rfl hstrict, read?_named_layouts ha hb hc hsolid⟩

/-- A plain date is refused for its mark by the layouts of other marks. -/
theorem read?_otherMark (form : DayForm) {d : Civil} (h : d.IsFourDigit) {mark : Char}
    (hmark : form.mark ≠ mark) (f g : Field) :
    (plainDate mark f g).read? (form.chars d) = none := by
  obtain ⟨tail, htail⟩ := form.exists_afterYear_eq d
  rw [chars, htail]
  exact Layout.read?_of_refuses rfl
    ((takes_signedYear h.natAbs_year_le _).refuses (refuses_literal hmark _ _ _))

/-- No layout before that of the form reads its text. -/
theorem read?_earlier (form : DayForm) {d : Civil} (h : d.IsFourDigit) :
    ∀ l ∈ layouts.take form.place, l.read? (form.chars d) = none := by
  cases form with
  | moment => exact List.forall_mem_nil _
  | dashes => exact read?_before_plain dashes (by decide) h
  | dots =>
    have hearlier : layouts.take dots.place = layouts.take 14 ++ [plainDate '-' .month .day] := rfl
    have hdash : dots.mark ≠ '-' := by decide
    rw [hearlier, List.forall_mem_append, List.forall_mem_singleton]
    exact ⟨read?_before_plain dots (by decide) h, read?_otherMark dots h hdash _ _⟩
  | slashes =>
    have hearlier : layouts.take slashes.place =
      layouts.take 14 ++ [plainDate '-' .month .day, plainDate '.' .month .day] := rfl
    have hdash : slashes.mark ≠ '-' := by decide
    have hdot : slashes.mark ≠ '.' := by decide
    rw [hearlier, List.forall_mem_append, List.forall_mem_cons, List.forall_mem_singleton]
    exact ⟨read?_before_plain slashes (by decide) h, read?_otherMark slashes h hdash _ _,
      read?_otherMark slashes h hdot _ _⟩

/-- The text of a day is no number. -/
theorem exists_read_error (form : DayForm) (d : Civil) :
    ∃ e, Signed.read (form.chars d) = .error e := by
  obtain ⟨tail, htail⟩ := form.exists_afterYear_eq d
  exact Signed.read_error (Decimal.exists_head_padded 4 _ _)
    ⟨form.mark, by simp [chars, htail], form.isDigit_mark⟩

theorem ofText_chars (form : DayForm) {d : Civil} (h : d.IsFourDigit) {before after : List Char}
    (hb : Blanks before) (ha : Blanks after) :
    ofText (between before (form.chars d) after) = .ok d.midnight := by
  obtain ⟨e, he⟩ := form.exists_read_error d
  have hne : form.chars d ≠ [] := List.append_ne_nil_of_left_ne_nil (padded_ne_nil 4 _) _
  have hfound : layouts.findSome? (·.read? (form.chars d)) = some d.midnight :=
    List.findSome?_eq_some_iff.2
      ⟨_, _, _, form.layouts_eq, form.read?_layout h, form.read?_earlier h⟩
  simp only [ofText, Text.trimChars_between hb (form.solid_chars d) hne ha, he, hfound]

end DayForm

theorem Civil.IsFourDigit.inRange_midnight {d : Civil} (h : d.IsFourDigit) :
    d.midnight.inRange = true := by
  have hfirst : -secondsPerDay < 0 := by decide
  have hrange := inRange_of_fourDigit h hfirst (by decide) 0
  rwa [Int.add_zero] at hrange

/-- A day of the years with four digits is one instant however it is written: in each of the forms,
with any blanks around it, by the layout of that form and by none before it, and as the
milliseconds of its midnight, in a number or in digits. The instant is the beginning of that day,
a day of seconds before the beginning of the next, and of no other date. -/
theorem days_have_one_instant {d : Civil} (h : d.IsFourDigit) {before after : List Char}
    (hb : Blanks before) (ha : Blanks after) :
    (∀ form : DayForm,
      ofValue (.string (between before (form.chars d) after)) = .ok d.midnight ∧
      (∃ l, layouts[form.place]? = some l ∧ l.read? (form.chars d) = some d.midnight) ∧
      ∀ l ∈ layouts.take form.place, l.read? (form.chars d) = none) ∧
    ofValue (.integer d.midnight.millis) = .ok d.midnight ∧
    ofValue (.string (between before (Decimal.intText d.midnight.millis).toList after)) =
      .ok d.midnight ∧
    d.midnight.date = d ∧ d.midnight.secondOfDay = 0 ∧
    d.next.midnight.seconds = d.midnight.seconds + 86400 ∧
    (⟨1970, 1, 1⟩ : Civil).midnight = .epoch ∧
    ∀ e : Civil, e.IsDate → d.midnight = e.midnight → d = e := by
  have hdate := h.toIsDate
  have hrange := h.inRange_midnight
  have hkept : ofMillis d.midnight.millis = .ok d.midnight := by
    rw [Civil.midnight, Instant.millis_whole]
    exact ofMillis_whole hrange
  have hepoch : (⟨1970, 1, 1⟩ : Civil).midnight = .epoch := by
    rw [Civil.midnight, Civil.dayNumber_epoch]
    rfl
  have hbounds := d.midnight.millis_bounds hrange (Nat.zero_lt_succ _)
  obtain ⟨hnumber, htext⟩ := ofValue_millis hbounds.1 hbounds.2 hb ha
  have hnext : d.next.midnight.seconds = d.midnight.seconds + 86400 := by
    simp only [Civil.midnight, Civil.dayNumber_next hdate, secondsPerDay]
    omega
  refine ⟨fun form => ⟨form.ofText_chars h hb ha, ⟨form.layout, ?_, form.read?_layout h⟩,
    form.read?_earlier h⟩, hnumber.trans hkept, htext.trans hkept, Civil.date_midnight hdate,
    d.secondOfDay_midnight, hnext, hepoch, fun e he => Civil.midnight_injective hdate he⟩
  cases form <;> rfl

/-- The leap day of the year zero, between blanks and in four of its spellings. -/
theorem first_leap_day :
    (⟨0, 2, 29⟩ : Civil).midnight = ⟨-62162121600, 0⟩ ∧
    ofValue (.string " 0000-02-29") = .ok ⟨-62162121600, 0⟩ ∧
    ofValue (.string " 0000/29/02") = .ok ⟨-62162121600, 0⟩ ∧
    ofValue (.string " 0000-02-29T00:00:00Z") = .ok ⟨-62162121600, 0⟩ ∧
    ofValue (.integer (-62162121600000)) = .ok ⟨-62162121600, 0⟩ := by
  have hdate : (⟨0, 2, 29⟩ : Civil).IsFourDigit := ⟨by decide, by decide, by decide⟩
  have hblank : Blanks [' '] := by decide
  have hnone : Blanks [] := List.forall_mem_nil _
  have hmidnight : (⟨0, 2, 29⟩ : Civil).midnight = ⟨-62162121600, 0⟩ := by decide
  obtain ⟨hforms, hnumber, -⟩ := days_have_one_instant hdate hblank hnone
  have hdashes : between [' '] (DayForm.dashes.chars ⟨0, 2, 29⟩) [] = " 0000-02-29" := by
    decide +kernel
  have hslashes : between [' '] (DayForm.slashes.chars ⟨0, 2, 29⟩) [] = " 0000/29/02" := by
    decide +kernel
  have hmoment : between [' '] (DayForm.moment.chars ⟨0, 2, 29⟩) [] = " 0000-02-29T00:00:00Z" := by
    decide +kernel
  rw [hmidnight] at hnumber hforms
  have hread (form : DayForm) := (hforms form).1
  exact ⟨hmidnight, hdashes ▸ hread .dashes, hslashes ▸ hread .slashes, hmoment ▸ hread .moment,
    hnumber⟩

end BindingRegistry.Time
