import BindingRegistry.Proofs.Time.Parts
import BindingRegistry.Proofs.Time.Written

/-!
Written times with a zone, and the layouts that are meant for them. A form is
written as words, one of which is the zone. Its layouts take the words one after
another, with an offset in the place of the zone or with the zone left out, and
what they have noted in the end is the moment that the form shows.
-/
namespace BindingRegistry.Time

open Decimal (padded)
open Text (Spaced)

/-- The day of the week, Monday being zero. -/
def Civil.weekday (d : Civil) : Nat := weekdayOf d.dayNumber

theorem Civil.weekday_lt (d : Civil) : d.weekday < 7 := by
  unfold weekday weekdayOf
  omega

theorem Civil.fits_shortYear (d : Civil) : Field.shortYear.Fits 2 (d.year % 100).natAbs :=
  Field.fits_two (by decide) (Nat.zero_le _) (show (d.year % 100).natAbs ≤ 99 by omega)

/-- The moment at which it is a time of a date in universal time. -/
def Civil.utc (d : Civil) (c : Clock) (nanos : Nat) : Instant :=
  ⟨d.dayNumber * secondsPerDay + c.total, nanos⟩

theorem Civil.date_utc {d : Civil} (h : d.IsDate) (c : Clock) (nanos : Nat) :
    (d.utc c nanos).date = d := by
  have htotal := c.total_lt
  have hday : (d.dayNumber * secondsPerDay + c.total) / secondsPerDay = d.dayNumber := by
    unfold secondsPerDay at htotal ⊢
    omega
  rw [Instant.date, utc, hday, ofDayNumber_dayNumber h]

theorem Civil.secondOfDay_utc (d : Civil) (c : Clock) (nanos : Nat) :
    (d.utc c nanos).secondOfDay = c.total := by
  have htotal := c.total_lt
  show ((d.dayNumber * secondsPerDay + c.total) % secondsPerDay).toNat = c.total
  unfold secondsPerDay at htotal ⊢
  omega

/-- The moment at which it is a time of a date where clocks are ahead by an offset. -/
def Civil.moment (d : Civil) (c : Clock) (nanos : Nat) (offset : Int) : Instant :=
  ⟨(d.utc c nanos).seconds - offset, nanos⟩

inductive Form where
  /-- Weekday, month, day, time, zone and year. -/
  | long
  /-- Day, month, two digits of the year, the time without seconds and the zone. -/
  | short
  /-- Full weekday, the date joined by dashes, time and zone. -/
  | dashed
  /-- Weekday, day, month, year, time and zone. -/
  | comma
  deriving DecidableEq, Repr

namespace Form

/-- Whether the form can write the date: the year in four digits, or in two. -/
def Covers (form : Form) (d : Civil) : Prop :=
  d.IsDate ∧ match form with
    | long | comma => 0 ≤ d.year ∧ d.year ≤ 9999
    | short | dashed => 1970 ≤ d.year ∧ d.year ≤ 2069

/-- The words before the zone, with `v` digits at least for the day. -/
def front (form : Form) (v : Nat) (d : Civil) (c : Clock) : List (List Char) :=
  let weekday := weekdayText d.weekday
  let day := padded v d.day
  let month := monthText d.month
  let shortYear := padded 2 (d.year % 100).natAbs
  match form with
  | long => [weekday.take 3, month, day, c.text]
  | short => [day, month, shortYear, c.shortText]
  | dashed => [weekday ++ [','], day ++ ('-' :: month ++ '-' :: shortYear), c.text]
  | comma => [weekday.take 3 ++ [','], day, month, padded 4 d.year.natAbs, c.text]

def back (form : Form) (d : Civil) : List (List Char) :=
  match form with
  | long => [padded 4 d.year.natAbs]
  | _ => []

def words (form : Form) (v : Nat) (d : Civil) (c : Clock) (zone : List Char) : List (List Char) :=
  form.front v d c ++ zone :: form.back d

def shown (form : Form) (c : Clock) : Clock :=
  match form with
  | short => { c with second := 0, second_lt := by decide }
  | _ => c

/-- The place of the layout with a name for the zone; that with an offset is the next. -/
def place : Form → Nat
  | long => 2
  | short => 4
  | dashed => 6
  | comma => 7

def frontParts : Form → List (List Item)
  | long => [[.weekdayName false], [.monthName], [.number .day 2], clock]
  | short => [[.number .day 2], [.monthName], [.number .shortYear 2],
      [.number .hour 2, .literal ':', .number .minute 2]]
  | dashed => [[.weekdayName true, .literal ','],
      [.number .day 2, .literal '-', .monthName, .literal '-', .number .shortYear 2], clock]
  | comma => [[.weekdayName false, .literal ','], [.number .day 2], [.monthName], [.signedYear],
      clock]

def backParts : Form → List (List Item)
  | long => [[.signedYear]]
  | _ => []

/-- The layout that leaves out the name of the zone. -/
def zoneLayout (form : Form) : Layout :=
  ⟨joined (form.frontParts ++ form.backParts), {}, some form.backParts.length⟩

def offsetLayout (form : Form) : Layout :=
  ⟨joined (form.frontParts ++ [.offset numericOffset] :: form.backParts), {}, none⟩

theorem layouts_zone (form : Form) : layouts[form.place]? = some form.zoneLayout := by
  cases form <;> rfl

theorem layouts_offset (form : Form) (hform : form ≠ dashed) :
    layouts[form.place + 1]? = some form.offsetLayout := by
  cases form <;> first | rfl | exact absurd rfl hform

theorem Covers.isFourDigit {form : Form} {d : Civil} (h : form.Covers d) : d.IsFourDigit := by
  obtain ⟨hdate, hyear⟩ := h
  refine ⟨hdate, ?_, ?_⟩ <;> cases form <;> simp only at hyear <;> omega

def commonFields (d : Civil) (c : Clock) : Fields where
  month := some d.month
  day := some d.day
  hour := some c.hour
  minute := some c.minute

def fields (form : Form) (d : Civil) (c : Clock) : Fields :=
  let weekday := some d.weekday
  let year : Int := d.year.natAbs
  let shortYear : Int := (d.year % 100).natAbs
  let second : Option Int := some c.second
  let common := commonFields d c
  match form with
  | long => { common with weekday, second }
  | short => { common with shortYear }
  | dashed => { common with weekday, shortYear, second }
  | comma => { common with weekday, year, second }

def dated (form : Form) (d : Civil) (fs : Fields) : Fields :=
  match form with
  | long => fs.set .year d.year.natAbs
  | _ => fs

/-- What all words say, an offset in the place of the zone among them. -/
def noted (form : Form) (d : Civil) (c : Clock) (offset : Option Int) : Fields :=
  form.dated d { form.fields d c with offset }

theorem length_back (form : Form) (d : Civil) : (form.back d).length = form.backParts.length := by
  cases form <;> rfl

theorem front_ne_nil (form : Form) (v : Nat) (d : Civil) (c : Clock) : form.front v d c ≠ [] := by
  cases form <;> exact List.cons_ne_nil _ _

/-- The day need not have two digits, since a dash stands behind it. -/
theorem takes_dashedDate {d : Civil} (h : d.IsFourDigit) {v : Nat} (hv : v ≤ 2) (fs : Fields) :
    TakesWord [.number .day 2, .literal '-', .monthName, .literal '-', .number .shortYear 2] fs
      (padded v d.day ++ ('-' :: monthText d.month ++ '-' :: padded 2 (d.year % 100).natAbs))
      (((fs.set .day d.day).set .month d.month).set .shortYear (d.year % 100).natAbs) := by
  intro rest hrest
  have hdash (cs : List Char) : Stops ('-' :: cs) := stops_cons rfl cs
  have htail := ((takes_literal '-' (fs.set .day d.day)).append
    (takes_month h.month_pos h.month_le _)).append (d.fits_shortYear.takes_markedNumber '-' _)
  rw [List.append_assoc]
  exact (matchItems_of_ok (h.fits_day.matchItem_number hv fs (hdash _))).trans
    (htail.word rest hrest)

section

variable {form : Form} {d : Civil} (h : form.Covers d) (c : Clock)
include h

theorem takes_front {v : Nat} (hv : v ≤ 2) :
    TakesAll form.frontParts {} (form.front v d c) (form.fields d c) := by
  have hdate := h.isFourDigit
  have hmonth (fs : Fields) := takes_month hdate.month_pos hdate.month_le fs
  have hday (fs : Fields) := hdate.fits_day.takesWord_number hv fs
  have hclock (fs : Fields) := TakesAll.one (c.takes_text fs).word
  cases form with
  | long =>
    exact .cons (takes_weekday d.weekday_lt {}).word (.cons (hmonth _).word (.cons (hday _)
      (hclock _)))
  | short =>
    exact .cons (hday _) (.cons (hmonth _).word (.cons (d.fits_shortYear.takes_number _).word
      (.one (c.takes_shortText _).word)))
  | dashed =>
    exact .cons (takes_longWeekday d.weekday_lt {}).word (.cons (takes_dashedDate hdate hv _)
      (hclock _))
  | comma =>
    exact .cons (takes_shortWeekday d.weekday_lt {} false).word (.cons (hday _)
      (.cons (hmonth _).word (.cons (takes_signedYear hdate.natAbs_year_le _).word (hclock _))))

theorem takes_back (fs : Fields) : TakesAll form.backParts fs (form.back d) (form.dated d fs) := by
  cases form with
  | long => exact .one (takes_signedYear h.isFourDigit.natAbs_year_le fs).word
  | short | dashed | comma => exact .nil fs

theorem date_noted (offset : Option Int) : (form.noted d c offset).date = .ok d := by
  have hdate := h.isFourDigit
  have hfull : some (d.year.natAbs : Int) = some d.year :=
    congrArg some (Int.natAbs_of_nonneg hdate.year_nonneg)
  have hlast : some ((d.year % 100).natAbs : Int) = some (d.year % 100) :=
    congrArg some (Int.natAbs_of_nonneg (Int.emod_nonneg _ (by decide)))
  refine date_of hdate ?_ ?_ ?_ ?_
  · cases form with
    | long | comma => exact .inl hfull
    | short | dashed => exact .inr ⟨rfl, hlast, h.2⟩
  · cases form <;> rfl
  · cases form <;> rfl
  · cases form <;> rintro w ⟨⟩ <;> rfl

omit h in
theorem time_noted (form : Form) (d : Civil) (offset : Option Int) :
    (form.noted d c offset).time = .ok ((form.shown c).total, 0) := by
  have hhour : (form.noted d c offset).hour = some ↑(form.shown c).hour := by cases form <;> rfl
  have hminute : (form.noted d c offset).minute = some ↑(form.shown c).minute := by
    cases form <;> rfl
  have hsecond : (form.noted d c offset).second.getD 0 = (form.shown c).second := by
    cases form <;> rfl
  have hnanos : (form.noted d c offset).nanos.getD 0 = 0 := by cases form <;> rfl
  have hlt := (form.shown c).second_lt
  rw [time_eq hhour hminute (by rw [hsecond]; omega), hsecond, hnanos]
  rfl

/-- The fields of the form name the moment it shows, less the offset. -/
theorem resolve_noted {offset : Option Int}
    (hoffset : ((offset.getD 0).natAbs : Int) < secondsPerDay) :
    (form.noted d c offset).resolve = .ok (d.moment (form.shown c) 0 (offset.getD 0)) := by
  have hkept : (form.noted d c offset).offset = offset := by cases form <;> rfl
  have hresolve := resolve_at h.isFourDigit (date_noted h c offset) (time_noted c form d offset)
    (by rwa [hkept]) (Int.natCast_nonneg _) (form.shown c).total_lt
  rw [hkept] at hresolve
  exact hresolve

theorem read?_zoneLayout {v : Nat} (hv : v ≤ 2) {zone cs : List Char}
    (hzone : zone.all Char.isUpper = true) (hs : Spaced (form.words v d c zone) cs) :
    form.zoneLayout.read? cs = some (d.moment (form.shown c) 0 0) := by
  have hzero : (((none : Option Int).getD 0).natAbs : Int) < secondsPerDay := by decide
  have hresolve := resolve_noted h c hzero
  have hnone : form.noted d c none = form.dated d (form.fields d c) := by cases form <;> rfl
  rw [hnone] at hresolve
  rw [zoneLayout, ← length_back form d]
  exact Layout.read?_of_zone ((takes_front h c hv).append (takes_back h _)) hresolve hs
    (front_ne_nil form v d c) hzone

theorem read?_offsetLayout {v : Nat} (hv : v ≤ 2) (o : Offset) {cs : List Char}
    (hs : Spaced (form.words v d c (o.text [])) cs) :
    form.offsetLayout.read? cs = some (d.moment (form.shown c) 0 o.seconds) :=
  Layout.read?_of_takesAll
    ((takes_front h c hv).append (.cons (o.takes_numeric _).word (takes_back h _)))
    (resolve_noted h c o.natAbs_seconds_lt) hs

end

end Form

end BindingRegistry.Time
