import BindingRegistry.Proofs.Time.Calendar
import BindingRegistry.Proofs.Time.Matching

/-!
The text of an instant reads back. In the years that are written with four
digits the strict form takes the whole text, the fraction with as many places as
it has, and what it resolves to is the instant.
-/
namespace BindingRegistry.Time

open Decimal (padded solid_padded solid_marked isDigit)
open Text (Blanks Solid between)

namespace Civil

structure IsFourDigit (d : Civil) : Prop extends d.IsDate where
  year_nonneg : 0 ≤ d.year
  year_le : d.year ≤ 9999

theorem IsFourDigit.isValid {d : Civil} (h : d.IsFourDigit) : d.isValid = true := by
  have hlow : firstYear ≤ d.year := Int.le_trans (by decide) h.year_nonneg
  have hhigh : d.year ≤ lastYear := Int.le_trans h.year_le (by decide)
  simp [Civil.isValid, hlow, hhigh, h.month_pos, h.month_le, h.day_pos, h.day_le]

theorem IsFourDigit.yearText {d : Civil} (h : d.IsFourDigit) :
    yearText d.year = padded 4 d.year.natAbs := by
  simp [Time.yearText, h.year_nonneg, h.year_le]

end Civil

theorem Instant.inRange_iff (t : Instant) :
    t.inRange = true ↔ -8334601228800 ≤ t.seconds ∧ t.seconds ≤ 8210266876799 := by
  have hfirst : firstSecond = -8334601228800 := rfl
  have hlast : lastSecond = 8210266876799 := rfl
  rw [Instant.inRange, hfirst, hlast, Bool.and_eq_true, decide_eq_true_eq, decide_eq_true_eq]

/-- Every second of the years with four digits is in the supported range, and so are those of the
days before and after them. -/
theorem inRange_of_fourDigit {d : Civil} (h : d.IsFourDigit) {second : Int}
    (hfirst : -secondsPerDay < second) (hlast : second < 2 * secondsPerDay) (nanos : Nat) :
    (⟨d.dayNumber * secondsPerDay + second, nanos⟩ : Instant).inRange = true := by
  obtain ⟨hday, hbound, -⟩ := h.dayOfYear_bounds
  have hlow := h.year_nonneg
  have hhigh := h.year_le
  have hyear : d.marchYear = d.year - 1 ∨ d.marchYear = d.year := by unfold Civil.marchYear; omega
  have hnumber : -800000 ≤ d.dayNumber ∧ d.dayNumber ≤ 3000000 := by
    rw [Civil.dayNumber_eq]
    omega
  rw [Instant.inRange_iff]
  unfold secondsPerDay at hfirst hlast ⊢
  constructor <;> simp only <;> omega

/-- Fields name the second of their date, less the offset. -/
theorem resolve_at {fs : Fields} {d : Civil} {second : Int} {nanos : Nat} (h : d.IsFourDigit)
    (hdate : fs.date = .ok d) (htime : fs.time = .ok (second, nanos))
    (hoffset : ((fs.offset.getD 0).natAbs : Int) < secondsPerDay) (hpos : 0 ≤ second)
    (hlt : second < secondsPerDay) :
    fs.resolve = .ok ⟨d.dayNumber * secondsPerDay + second - fs.offset.getD 0, nanos⟩ := by
  have hfirst : -secondsPerDay < second - fs.offset.getD 0 := by omega
  have hlast : second - fs.offset.getD 0 < 2 * secondsPerDay := by omega
  have hrange := inRange_of_fourDigit h hfirst hlast nanos
  rw [← Int.add_sub_assoc] at hrange
  rw [Fields.resolve, hdate, htime]
  simp only [bind, Except.bind, pure, Except.pure, if_neg (Int.not_le.2 hoffset), hrange, if_true]

/-- Fields without an offset or with none that counts name the second of their date. -/
theorem resolve_eq {fs : Fields} {d : Civil} {second : Int} {nanos : Nat} (h : d.IsFourDigit)
    (hdate : fs.date = .ok d) (htime : fs.time = .ok (second, nanos))
    (hoffset : fs.offset.getD 0 = 0) (hpos : 0 ≤ second) (hlt : second < secondsPerDay) :
    fs.resolve = .ok ⟨d.dayNumber * secondsPerDay + second, nanos⟩ := by
  have hresolve := resolve_at h hdate htime (by rw [hoffset]; decide) hpos hlt
  rwa [hoffset, Int.sub_zero] at hresolve

/-- The fields have the year in full, or its last two digits if it is one of the hundred years that
two digits stand for. -/
def Fields.NamesYear (fs : Fields) (year : Int) : Prop :=
  fs.year = some year ∨
    (fs.year = none ∧ fs.shortYear = some (year % 100) ∧ 1970 ≤ year ∧ year ≤ 2069)

/-- The two digits of a year of those hundred stand for it. -/
theorem date_of_shortYear {fs : Fields} {year : Int} (hnone : fs.year = none)
    (hshort : fs.shortYear = some (year % 100)) (hlow : 1970 ≤ year) (hhigh : year ≤ 2069) :
    fs.date = { fs with year := some year }.date := by
  have hcentury : (if year % 100 < 70 then year % 100 + 2000 else year % 100 + 1900) = year := by
    split <;> omega
  simp only [Fields.date, hnone, hshort, hcentury]

theorem date_of_year {fs : Fields} {d : Civil} (h : d.IsFourDigit)
    (hyear : fs.year = some d.year) (hmonth : fs.month = some ↑d.month)
    (hday : fs.day = some ↑d.day) (hweekday : ∀ w ∈ fs.weekday, weekdayOf d.dayNumber = w) :
    fs.date = .ok d := by
  have hvalid := h.isValid
  simp only [Fields.date, hyear, hmonth, hday, bind, Except.bind, pure, Except.pure,
    Int.toNat_natCast, hvalid]
  cases hname : fs.weekday with
  | none => rfl
  | some w => exact if_pos (hweekday w hname)

/-- Fields of a date, with its weekday if with any, name the date. -/
theorem date_of {fs : Fields} {d : Civil} (h : d.IsFourDigit) (hyear : fs.NamesYear d.year)
    (hmonth : fs.month = some ↑d.month) (hday : fs.day = some ↑d.day)
    (hweekday : ∀ w ∈ fs.weekday, weekdayOf d.dayNumber = w) : fs.date = .ok d := by
  rcases hyear with hyear | ⟨hnone, hshort, hlow, hhigh⟩
  · exact date_of_year h hyear hmonth hday hweekday
  · rw [date_of_shortYear hnone hshort hlow hhigh]
    exact date_of_year h rfl hmonth hday hweekday

theorem date_eq {fs : Fields} {d : Civil} (h : d.IsFourDigit) (hyear : fs.year = some d.year)
    (hmonth : fs.month = some ↑d.month) (hday : fs.day = some ↑d.day)
    (hweekday : fs.weekday = none) : fs.date = .ok d :=
  date_of_year h hyear hmonth hday (by simp [hweekday])

theorem time_eq {fs : Fields} {hour minute : Nat} (hhour : fs.hour = some ↑hour)
    (hminute : fs.minute = some ↑minute) (hsecond : fs.second.getD 0 < 60) :
    fs.time = .ok (hour * 3600 + minute * 60 + fs.second.getD 0, fs.nanos.getD 0) := by
  have hleap : fs.second.getD 0 ≠ 60 := by omega
  simp [Fields.time, hhour, hminute, hleap, bind, Except.bind, pure, Except.pure]

/-- A fraction with enough places to be exact counts the nanoseconds. -/
theorem matchItem_fraction {w nanos : Nat} (hw : 0 < w) (hle : w ≤ 9)
    (hnanos : nanos < nanosPerSecond) (hexact : nanos % tenTo (9 - w) = 0) (fs : Fields)
    {rest : List Char} (hstop : Stops rest) :
    matchItem .fraction fs (('.' :: padded w (nanos / tenTo (9 - w))) ++ rest) =
      .ok ({ fs with nanos := some nanos }, rest) := by
  have hn : nanos / tenTo (9 - w) < tenTo w := by
    have hpower : tenTo w * tenTo (9 - w) = nanosPerSecond := by
      rw [← tenTo_add, Nat.add_sub_cancel' hle]
      rfl
    rw [Nat.div_lt_iff_lt_mul (tenTo_pos _), hpower]
    exact hnanos
  have hback : nanos / tenTo (9 - w) * tenTo (9 - w) = nanos :=
    Nat.div_mul_cancel (Nat.dvd_of_mod_eq_zero hexact)
  have hlength := Decimal.length_padded hw hn
  have hscan := scanNumber_digits (fun c hc => Decimal.isDigit_of_mem_padded hc)
    (hlength.symm ▸ hw) (hlength.symm ▸ hle) (.inr hstop)
  rw [Decimal.value_padded, hlength] at hscan
  rw [List.cons_append, matchItem_fraction_point, hscan]
  simp only [bind, Except.bind, hback, dropWhile_of_stops hstop]

def Fields.fractioned (fs : Fields) (nanos : Nat) : Fields :=
  { fs with nanos := if nanos = 0 then fs.nanos else some nanos }

/-- The fraction is taken in whichever of its lengths it is written, up to a character that cannot
belong to it. -/
theorem matchItem_fractionText {nanos : Nat} (hnanos : nanos < nanosPerSecond) (fs : Fields)
    {c : Char} (hc : isDigit c = false) (hpoint : c ≠ '.') (rest : List Char) :
    matchItem .fraction fs (fractionText nanos ++ c :: rest) =
      .ok (fs.fractioned nanos, c :: rest) := by
  have hplaces {w : Nat} (hw : 0 < w) (hle : w ≤ 9) (hexact : nanos % tenTo (9 - w) = 0) :=
    matchItem_fraction hw hle hnanos hexact fs (stops_cons hc rest)
  by_cases hzero : nanos = 0
  · have hnone : ∀ d ∈ (c :: rest).head?, d ≠ '.' := by
      rintro _ ⟨⟩
      exact hpoint
    rw [hzero]
    exact matchItem_fraction_none hnone fs
  · simp only [Fields.fractioned, fractionText, if_neg hzero]
    split
    · next hmillis => exact hplaces (w := 3) (by decide) (by decide) hmillis
    · split
      · next hmicros => exact hplaces (w := 6) (by decide) (by decide) hmicros
      · have hall := hplaces (w := 9) (by decide) (by decide) (Nat.mod_one nanos)
        rwa [show nanos / tenTo (9 - 9) = nanos from Nat.div_one nanos] at hall

/-- What the fields are after the end of a text in universal time. -/
def Fields.ended (fs : Fields) (nanos : Nat) : Fields :=
  { fs with nanos := if nanos = 0 then fs.nanos else some nanos, offset := some 0 }

/-- The fraction in whichever of its lengths, and what follows it. -/
theorem takes_fraction {nanos : Nat} (hnanos : nanos < nanosPerSecond) {items : List Item}
    {fs fs' : Fields} {c : Char} {cs : List Char} (hc : isDigit c = false) (hpoint : c ≠ '.')
    (h : Takes items (fs.fractioned nanos) (c :: cs) fs') :
    Takes (.fraction :: items) fs (fractionText nanos ++ c :: cs) fs' := by
  intro more rest
  have hfraction := matchItem_fractionText hnanos fs hc hpoint (cs ++ rest)
  rw [List.append_assoc, List.cons_append, List.cons_append, matchItems_of_ok hfraction]
  exact h more rest

theorem takes_end {nanos : Nat} (hnanos : nanos < nanosPerSecond) (fs : Fields) :
    Takes [.fraction, .offset strictOffset] fs (fractionText nanos ++ ['Z']) (fs.ended nanos) :=
  takes_fraction hnanos rfl (by decide) (.of_item fun _ => rfl)

theorem Civil.IsDate.fits_month {d : Civil} (h : d.IsDate) : Field.month.Fits 2 d.month :=
  Field.fits_two (by decide) h.month_pos h.month_le

theorem Civil.IsDate.fits_day {d : Civil} (h : d.IsDate) : Field.day.Fits 2 d.day :=
  Field.fits_two (by decide) h.day_pos (Nat.le_trans h.day_le (monthLength_le d.year d.month))

theorem Civil.IsFourDigit.natAbs_year_le {d : Civil} (h : d.IsFourDigit) :
    d.year.natAbs ≤ 9999 := by
  have hlow := h.year_nonneg
  have hhigh := h.year_le
  omega

theorem Civil.IsFourDigit.fits_year {d : Civil} (h : d.IsFourDigit) :
    Field.year.Fits 4 d.year.natAbs := Field.fits_year h.natAbs_year_le

/-- The text of an instant up to its whole second. -/
def Instant.wholeText (t : Instant) : List Char :=
  let s := t.secondOfDay
  yearText t.date.year ++ '-' :: padded 2 t.date.month ++ '-' :: padded 2 t.date.day ++
    'T' :: padded 2 (s / 3600) ++ ':' :: padded 2 (s / 60 % 60) ++ ':' :: padded 2 (s % 60)

theorem Instant.chars_eq {t : Instant} (h : t.nanos < nanosPerSecond) :
    t.chars = t.wholeText ++ (fractionText t.nanos ++ ['Z']) := by
  have hleap : ¬nanosPerSecond ≤ t.nanos := Nat.not_le_of_lt h
  simp [Instant.chars, Instant.wholeText, hleap]

/-- The fields of an instant, the fraction of its second left out. -/
def Instant.fields (t : Instant) : Fields where
  year := some t.date.year
  month := some t.date.month
  day := some t.date.day
  hour := some (t.secondOfDay / 3600 : Nat)
  minute := some (t.secondOfDay / 60 % 60 : Nat)
  second := some (t.secondOfDay % 60 : Nat)

theorem secondOfDay_lt (t : Instant) : t.secondOfDay < 86400 := by
  unfold Instant.secondOfDay secondsPerDay
  omega

theorem Instant.fits_hour (t : Instant) : Field.hour.Fits 2 (t.secondOfDay / 3600) := by
  have hsmall := secondOfDay_lt t
  exact Field.fits_two (by decide) (Nat.zero_le _) (show t.secondOfDay / 3600 ≤ 23 by omega)

theorem Instant.fits_minute (t : Instant) : Field.minute.Fits 2 (t.secondOfDay / 60 % 60) :=
  Field.fits_two (by decide) (Nat.zero_le _) (show t.secondOfDay / 60 % 60 ≤ 59 by omega)

theorem Instant.fits_second (t : Instant) : Field.second.Fits 2 (t.secondOfDay % 60) :=
  Field.fits_two (by decide) (Nat.zero_le _) (show t.secondOfDay % 60 ≤ 60 by omega)

/-- Dates and clocks are read back from their fixed places. -/
theorem takes_wholeText {t : Instant} (h : t.date.IsFourDigit) :
    Takes [.digits .year 4, .literal '-', .digits .month 2, .literal '-', .digits .day 2,
      .oneOf ['T', 't', ' '], .digits .hour 2, .literal ':', .digits .minute 2, .literal ':',
      .digits .second 2] {} t.wholeText t.fields := by
  have hmark (fs : Fields) : Takes [.oneOf ['T', 't', ' ']] fs ['T'] fs := takes_oneOf rfl fs
  have hyear : (t.date.year.natAbs : Int) = t.date.year := Int.natAbs_of_nonneg h.year_nonneg
  have htakes := (((((h.fits_year.takes_digits {}).append
    (h.fits_month.takes_marked '-' _)).append
    (h.fits_day.takes_marked '-' _)).append
    ((hmark _).append (t.fits_hour.takes_digits _))).append
    (t.fits_minute.takes_marked ':' _)).append
    (t.fits_second.takes_marked ':' _)
  rw [hyear] at htakes
  rw [Instant.wholeText, h.yearText]
  exact htakes

theorem Instant.seconds_eq (t : Instant) :
    t.date.dayNumber * secondsPerDay + t.secondOfDay = t.seconds := by
  have hdays : t.date.dayNumber = t.seconds / secondsPerDay := Civil.dayNumber_ofDayNumber _
  rw [hdays, Instant.secondOfDay]
  unfold secondsPerDay
  omega

/-- The fields of an instant and an offset name the instant less the offset. -/
theorem Instant.resolve_shifted {t : Instant} (h : t.date.IsFourDigit) {offset : Int}
    (hoffset : (offset.natAbs : Int) < secondsPerDay) :
    ({ t.fields.fractioned t.nanos with offset := some offset } : Fields).resolve =
      .ok ⟨t.seconds - offset, t.nanos⟩ := by
  have hsmall := secondOfDay_lt t
  have hdate : ({ t.fields.fractioned t.nanos with offset := some offset } : Fields).date =
      .ok t.date := date_eq h rfl rfl rfl rfl
  have htime : ({ t.fields.fractioned t.nanos with offset := some offset } : Fields).time =
      .ok (↑t.secondOfDay, t.nanos) := by
    have hwritten : (t.fields.fractioned t.nanos).nanos.getD 0 = t.nanos := by
      by_cases hzero : t.nanos = 0 <;> simp [Fields.fractioned, Instant.fields, hzero]
    have hsecond : (t.fields.fractioned t.nanos).second.getD 0 = (t.secondOfDay % 60 : Nat) := rfl
    have hwhole : ((t.secondOfDay / 3600 : Nat) : Int) * 3600 +
        (t.secondOfDay / 60 % 60 : Nat) * 60 + (t.secondOfDay % 60 : Nat) = t.secondOfDay := by
      omega
    rw [time_eq rfl rfl (by rw [hsecond]; omega), hwritten, hsecond, hwhole]
  have hresolve := resolve_at h hdate htime hoffset (Int.natCast_nonneg _) (by
    unfold secondsPerDay
    omega)
  rwa [t.seconds_eq] at hresolve

/-- The fields of the whole text name the instant. -/
theorem Instant.resolve_ended {t : Instant} (h : t.date.IsFourDigit) :
    (t.fields.ended t.nanos).resolve = .ok t := by
  have hresolve := t.resolve_shifted h (by decide : ((0 : Int).natAbs : Int) < secondsPerDay)
  rwa [Int.sub_zero] at hresolve

theorem takes_chars {t : Instant} (h : t.date.IsFourDigit) (hnanos : t.nanos < nanosPerSecond) :
    Takes strictItems {} t.chars (t.fields.ended t.nanos) := by
  rw [t.chars_eq hnanos]
  exact (takes_wholeText h).append (takes_end hnanos t.fields)

/-- The strict form takes the text of every instant in the years with four digits and names the
instant. -/
theorem parseItems_chars {t : Instant} (h : t.date.IsFourDigit)
    (hnanos : t.nanos < nanosPerSecond) : parseItems {} strictItems t.chars = .ok t := by
  rw [(takes_chars h hnanos).parseItems, t.resolve_ended h]

theorem solid_fractionText (nanos : Nat) : Solid (fractionText nanos) := by
  unfold fractionText
  split
  · exact List.forall_mem_nil _
  · split
    · exact solid_marked rfl 3 _
    · split
      · exact solid_marked rfl 6 _
      · exact solid_marked rfl 9 _

theorem solid_wholeText {t : Instant} (h : t.date.IsFourDigit) : Solid t.wholeText := by
  rw [Instant.wholeText, h.yearText]
  exact (((((solid_padded 4 _).append (solid_marked rfl 2 _)).append (solid_marked rfl 2 _)).append
    (solid_marked rfl 2 _)).append (solid_marked rfl 2 _)).append (solid_marked rfl 2 _)

/-- A solid text that begins with a digit and is no number stands, with any blanks around it, for
what the strict form reads in it. -/
theorem ofText_strict {cs : List Char} {t : Instant} (hsolid : Solid cs)
    (hfirst : ∃ c ∈ cs.head?, isDigit c = true) (hstray : ∃ c ∈ cs, isDigit c = false)
    (hparse : parseItems {} strictItems cs = .ok t) {before after : List Char}
    (hb : Blanks before) (ha : Blanks after) : ofText (between before cs after) = .ok t := by
  have hne : cs ≠ [] := by
    rintro rfl
    simp at hfirst
  obtain ⟨e, he⟩ := Signed.read_error hfirst hstray
  have hread : layouts.findSome? (·.read? cs) = some t := by
    have hstrict : ({ items := strictItems } : Layout).read? cs = some t :=
      Layout.read?_of_ok rfl hparse
    rw [layouts, List.findSome?_cons_of_isSome (by simp [hstrict]), hstrict]
  simp only [ofText, Text.trimChars_between hb hsolid hne ha, he, hread]

theorem exists_head_wholeText {t : Instant} (h : t.date.IsFourDigit) (rest : List Char) :
    ∃ c ∈ (t.wholeText ++ rest).head?, isDigit c = true := by
  simp only [Instant.wholeText, h.yearText, List.append_assoc]
  exact Decimal.exists_head_padded 4 _ _

/-- The text of an instant in the years with four digits, with any blanks around it, stands for the
instant. -/
theorem ofText_chars {t : Instant} (h : t.date.IsFourDigit) (hnanos : t.nanos < nanosPerSecond)
    {before after : List Char} (hb : Blanks before) (ha : Blanks after) :
    ofText (between before t.chars after) = .ok t := by
  have hparse := parseItems_chars h hnanos
  rw [t.chars_eq hnanos] at hparse ⊢
  have hend : Solid ['Z'] := List.forall_mem_singleton.2 rfl
  exact ofText_strict ((solid_wholeText h).append ((solid_fractionText _).append hend))
    (exists_head_wholeText h _) ⟨'Z', by simp, rfl⟩ hparse hb ha

end BindingRegistry.Time
