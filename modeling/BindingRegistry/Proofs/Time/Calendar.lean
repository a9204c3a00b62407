import Mathlib.Logic.Function.Iterate
import BindingRegistry.Time.Instant

/-!
The count of days. It goes up by one from each date to the next, over the ends
of months and years and over leap days on both sides of 1970-01-01, and every
date is found again from its number, so no two dates share one.
-/
namespace BindingRegistry.Time

theorem isLeap_iff {year : Int} :
    isLeap year = true ↔ year % 4 = 0 ∧ (year % 100 ≠ 0 ∨ year % 400 = 0) := by
  simp [isLeap]

/-- February has its 29th day in leap years only. -/
theorem monthLength_february (year : Int) : monthLength year 2 = 29 ∧ isLeap year = true ∨
    monthLength year 2 = 28 ∧ ¬isLeap year = true := by
  cases hleap : isLeap year <;> simp [monthLength, hleap]

theorem monthLength_pos (year : Int) (month : Nat) : 0 < monthLength year month := by
  unfold monthLength
  split
  · split <;> decide
  · split <;> decide

theorem monthLength_le (year : Int) (month : Nat) : monthLength year month ≤ 31 := by
  unfold monthLength
  split
  · split <;> decide
  · split <;> decide

namespace Civil

structure IsDate (d : Civil) : Prop where
  month_pos : 1 ≤ d.month
  month_le : d.month ≤ 12
  day_pos : 1 ≤ d.day
  day_le : d.day ≤ monthLength d.year d.month

instance (d : Civil) : Decidable d.IsDate :=
  decidable_of_iff (1 ≤ d.month ∧ d.month ≤ 12 ∧ 1 ≤ d.day ∧ d.day ≤ monthLength d.year d.month)
    ⟨fun ⟨hpos, hle, hday, hlast⟩ => ⟨hpos, hle, hday, hlast⟩,
      fun h => ⟨h.month_pos, h.month_le, h.day_pos, h.day_le⟩⟩

/-- The year that runs from March to February. -/
def marchYear (d : Civil) : Int := if d.month ≤ 2 then d.year - 1 else d.year

/-- The months from March to the date's month. -/
def fromMarch (d : Civil) : Int := (d.month + 9) % 12

/-- The days from March 1st to the date. -/
def dayOfYear (d : Civil) : Int := daysBeforeMonth d.fromMarch + d.day - 1

/-- The count without eras. The leap days before a year are those of the multiples of 4 without
those of 100, but with those of 400. -/
theorem dayNumber_eq (d : Civil) : d.dayNumber = 365 * d.marchYear + d.marchYear / 4 -
    d.marchYear / 100 + d.marchYear / 400 + d.dayOfYear - 719468 := by
  have heras : d.dayNumber = d.marchYear / 400 * 146097 + d.marchYear % 400 * 365 +
      d.marchYear % 400 / 4 - d.marchYear % 400 / 100 + d.dayOfYear - 719468 := rfl
  omega

theorem month_cases {m : Nat} (hpos : 1 ≤ m) (hle : m ≤ 12) : m = 1 ∨ m = 2 ∨ m = 3 ∨ m = 4 ∨
    m = 5 ∨ m = 6 ∨ m = 7 ∨ m = 8 ∨ m = 9 ∨ m = 10 ∨ m = 11 ∨ m = 12 := by omega

/-- The table of days before a month goes up by the lengths of the months, but for February, which
ends the year and for which it has room to spare. -/
theorem daysBeforeMonth_succ (year : Int) {m : Nat} (hpos : 1 ≤ m) (hle : m ≤ 12) (hm : m ≠ 2) :
    daysBeforeMonth ((m + 9) % 12 + 1) = daysBeforeMonth ((m + 9) % 12) + monthLength year m := by
  rcases month_cases hpos hle with
    rfl | rfl | rfl | rfl | rfl | rfl | rfl | rfl | rfl | rfl | rfl | rfl <;>
    first | rfl | exact absurd rfl hm

theorem dayNumber_dayAfter (y : Int) (m d : Nat) :
    dayNumber ⟨y, m, d + 1⟩ = dayNumber ⟨y, m, d⟩ + 1 := by
  rw [dayNumber_eq, dayNumber_eq]
  simp only [marchYear, dayOfYear, fromMarch]
  omega

/-- The counted year changes between February and March, and whether a leap day lies there shows in
the length of February and in the leap days before the new year alike. -/
theorem dayNumber_march (y : Int) :
    dayNumber ⟨y, 3, 1⟩ = dayNumber ⟨y, 2, monthLength y 2⟩ + 1 := by
  have hlength := monthLength_february y
  rw [isLeap_iff] at hlength
  rw [dayNumber_eq, dayNumber_eq]
  simp only [marchYear, dayOfYear, fromMarch, daysBeforeMonth]
  omega

theorem dayNumber_monthAfter (y : Int) {m : Nat} (hpos : 1 ≤ m) (hlt : m < 12) :
    dayNumber ⟨y, m + 1, 1⟩ = dayNumber ⟨y, m, monthLength y m⟩ + 1 := by
  by_cases hm : m = 2
  · subst hm
    exact dayNumber_march y
  · have hlength := daysBeforeMonth_succ y hpos (by omega) hm
    have hmonth : ((m + 1 : Nat) + 9 : Int) % 12 = (m + 9) % 12 + 1 := by omega
    rw [dayNumber_eq, dayNumber_eq]
    simp only [marchYear, dayOfYear, fromMarch]
    rw [hmonth, hlength]
    omega

theorem dayNumber_yearAfter (y : Int) :
    dayNumber ⟨y + 1, 1, 1⟩ = dayNumber ⟨y, 12, monthLength y 12⟩ + 1 := by
  have hlength : monthLength y 12 = 31 := rfl
  rw [dayNumber_eq, dayNumber_eq, hlength]
  simp only [marchYear, dayOfYear, fromMarch, daysBeforeMonth]
  omega

def next (d : Civil) : Civil :=
  if d.day < monthLength d.year d.month then ⟨d.year, d.month, d.day + 1⟩
  else if d.month < 12 then ⟨d.year, d.month + 1, 1⟩
  else ⟨d.year + 1, 1, 1⟩

theorem IsDate.next {d : Civil} (h : d.IsDate) : d.next.IsDate := by
  unfold Civil.next
  split
  · next hday => exact ⟨h.month_pos, h.month_le, Nat.succ_pos _, hday⟩
  · split
    · next hmonth => exact ⟨Nat.succ_pos _, hmonth, Nat.le_refl 1, monthLength_pos _ _⟩
    · exact ⟨Nat.le_refl 1, Nat.le_add_left 1 11, Nat.le_refl 1, monthLength_pos _ _⟩

/-- Also over the ends of months and years. -/
theorem dayNumber_next {d : Civil} (h : d.IsDate) : d.next.dayNumber = d.dayNumber + 1 := by
  obtain ⟨y, m, day⟩ := d
  obtain ⟨hpos, hle, -, hlast⟩ := h
  simp only at hpos hle hlast
  unfold Civil.next
  split
  · exact dayNumber_dayAfter y m day
  · next hday =>
    have hend : day = monthLength y m := Nat.le_antisymm hlast (Nat.le_of_not_lt hday)
    subst hend
    split
    · next hmonth => exact dayNumber_monthAfter y hpos hmonth
    · next hmonth =>
      have hdecember : m = 12 := Nat.le_antisymm hle (Nat.le_of_not_lt hmonth)
      subst hdecember
      exact dayNumber_yearAfter y

/-- The count is the number of days one has to go through. -/
theorem dayNumber_iterate_next {d : Civil} (h : d.IsDate) (n : Nat) :
    (next^[n] d).IsDate ∧ (next^[n] d).dayNumber = d.dayNumber + n := by
  induction n with
  | zero => exact ⟨h, (Int.add_zero _).symm⟩
  | succ n ih =>
    obtain ⟨hdate, hnumber⟩ := ih
    rw [Function.iterate_succ_apply']
    refine ⟨hdate.next, ?_⟩
    rw [dayNumber_next hdate, hnumber]
    omega

theorem dayNumber_epoch : dayNumber ⟨1970, 1, 1⟩ = 0 := rfl

/-- The year of an era is found again from the day: the divisors take back the leap days that are
over. The argument is by the centuries, the cycles of four years and the single years in it. -/
theorem yearOfEra_eq {yearOfEra dayOfYear dayOfEra : Int}
    (hyear : 0 ≤ yearOfEra ∧ yearOfEra < 400) (hday : 0 ≤ dayOfYear ∧ dayOfYear ≤ 365)
    (hleap : dayOfYear = 365 →
      (yearOfEra + 1) % 4 = 0 ∧ ((yearOfEra + 1) % 100 ≠ 0 ∨ (yearOfEra + 1) % 400 = 0))
    (hera : dayOfEra = 365 * yearOfEra + yearOfEra / 4 - yearOfEra / 100 + dayOfYear) :
    (dayOfEra - dayOfEra / 1460 + dayOfEra / 36524 - dayOfEra / 146096) / 365 = yearOfEra := by
  obtain ⟨century, cycle, single, hcentury, hcycle, hsingle, rfl⟩ : ∃ century cycle single : Int,
      (0 ≤ century ∧ century ≤ 3) ∧ (0 ≤ cycle ∧ cycle ≤ 24) ∧ (0 ≤ single ∧ single ≤ 3) ∧
        yearOfEra = 100 * century + 4 * cycle + single :=
    ⟨yearOfEra / 100, yearOfEra % 100 / 4, yearOfEra % 4, by omega, by omega, by omega, by omega⟩
  have hlast : dayOfYear = 365 → single = 3 ∧ (cycle = 24 → century = 3) := by
    intro h
    have hleap := hleap h
    omega
  have hparts : dayOfEra = 36524 * century + 1461 * cycle + 365 * single + dayOfYear := by omega
  clear hera hleap hyear
  have hfour :
      24 * century + cycle + 365 * single + dayOfYear < 1460 ∧
        dayOfEra / 1460 = 25 * century + cycle ∨
      1460 ≤ 24 * century + cycle + 365 * single + dayOfYear ∧
        dayOfEra / 1460 = 25 * century + cycle + 1 := by omega
  have hhundred :
      dayOfEra < 146096 ∧ dayOfEra / 36524 = century ∧ dayOfEra / 146096 = 0 ∨
      dayOfEra = 146096 ∧ dayOfEra / 36524 = 4 ∧ dayOfEra / 146096 = 1 ∧ century = 3 ∧
        cycle = 24 ∧ single = 3 ∧ dayOfYear = 365 := by omega
  omega

/-- The month is found again from the day of the year. -/
theorem fromMarch_eq {fromMarch day : Int} (hpos : 1 ≤ day)
    (hle : day ≤ daysBeforeMonth (fromMarch + 1) - daysBeforeMonth fromMarch) :
    (5 * (daysBeforeMonth fromMarch + day - 1) + 2) / 153 = fromMarch := by
  unfold daysBeforeMonth at hle ⊢
  omega

theorem fromMarch_bounds (d : Civil) : 0 ≤ d.fromMarch ∧ d.fromMarch ≤ 11 := by
  unfold fromMarch
  omega

/-- No month has more days than the table has room for. -/
theorem IsDate.day_le_room {d : Civil} (h : d.IsDate) :
    (d.day : Int) ≤ daysBeforeMonth (d.fromMarch + 1) - daysBeforeMonth d.fromMarch := by
  have hday := h.day_le
  by_cases hm : d.month = 2
  · have hlength := monthLength_february d.year
    rw [hm] at hday
    simp only [fromMarch, daysBeforeMonth, hm]
    omega
  · have hlength := daysBeforeMonth_succ d.year h.month_pos h.month_le hm
    rw [fromMarch, hlength]
    omega

/-- The 366th day is February 29th, and its year is a leap year. -/
theorem IsDate.dayOfYear_bounds {d : Civil} (h : d.IsDate) : 0 ≤ d.dayOfYear ∧ d.dayOfYear ≤ 365 ∧
    (d.dayOfYear = 365 → isLeap (d.marchYear + 1) = true) := by
  have hpos := h.day_pos
  have hroom := h.day_le_room
  have hmonth := d.fromMarch_bounds
  by_cases hm : d.month = 2
  · have hlength := monthLength_february d.year
    have hday := h.day_le
    have hyear : d.marchYear + 1 = d.year := by simp [marchYear, hm]
    rw [hm] at hday
    rw [hyear]
    simp only [dayOfYear, fromMarch, daysBeforeMonth, hm]
    refine ⟨by omega, by omega, fun hlast => ?_⟩
    rcases hlength with ⟨-, hleap⟩ | ⟨hshort, -⟩
    · exact hleap
    · omega
  · have hbefore : d.fromMarch ≠ 11 := by
      have hle := h.month_le
      unfold fromMarch
      omega
    unfold daysBeforeMonth at hroom
    unfold dayOfYear daysBeforeMonth
    omega

/-- The days from the first of the era to the date. -/
def dayOfEra (d : Civil) : Int :=
  365 * (d.marchYear % 400) + d.marchYear % 400 / 4 - d.marchYear % 400 / 100 + d.dayOfYear

theorem dayNumber_eq_era (d : Civil) :
    d.dayNumber + 719468 = 146097 * (d.marchYear / 400) + d.dayOfEra := by
  rw [dayNumber_eq, dayOfEra]
  omega

theorem IsDate.dayOfEra_bounds {d : Civil} (h : d.IsDate) :
    0 ≤ d.dayOfEra ∧ d.dayOfEra < 146097 := by
  obtain ⟨hday, hlast, -⟩ := h.dayOfYear_bounds
  unfold dayOfEra
  omega

/-- A date is found again from its number. -/
theorem ofDayNumber_dayNumber {d : Civil} (h : d.IsDate) : ofDayNumber d.dayNumber = d := by
  obtain ⟨hday, hlast, hleap⟩ := h.dayOfYear_bounds
  have hbounds := h.dayOfEra_bounds
  have hnumber := dayNumber_eq_era d
  have hera : (d.dayNumber + 719468) / 146097 = d.marchYear / 400 := by omega
  have hrest : (d.dayNumber + 719468) % 146097 = d.dayOfEra := by omega
  have hyear : (d.dayOfEra - d.dayOfEra / 1460 + d.dayOfEra / 36524 - d.dayOfEra / 146096) / 365 =
      d.marchYear % 400 := by
    refine yearOfEra_eq (by omega) ⟨hday, hlast⟩ (fun h => ?_) rfl
    have hleap := isLeap_iff.1 (hleap h)
    omega
  have hdayOfYear : d.dayOfEra - (365 * (d.marchYear % 400) + d.marchYear % 400 / 4 -
      d.marchYear % 400 / 100) = d.dayOfYear := by
    rw [dayOfEra]
    omega
  have hmonth : (5 * d.dayOfYear + 2) / 153 = d.fromMarch :=
    fromMarch_eq (by exact_mod_cast h.day_pos) h.day_le_room
  unfold ofDayNumber
  simp only [hera, hrest, hyear, hdayOfYear, hmonth]
  have hfrom : (if d.fromMarch < 10 then d.fromMarch + 3 else d.fromMarch - 9) = d.month := by
    have hpos := h.month_pos
    have hle := h.month_le
    unfold fromMarch
    omega
  have hnumber : (d.dayOfYear - daysBeforeMonth d.fromMarch + 1).toNat = d.day := by
    unfold dayOfYear
    omega
  have hwhole : d.marchYear % 400 + d.marchYear / 400 * 400 +
      (if (d.month : Int) ≤ 2 then 1 else 0) = d.year := by
    unfold marchYear
    omega
  rw [hfrom, hnumber, hwhole, Int.toNat_natCast]

theorem dayNumber_injective {d e : Civil} (hd : d.IsDate) (he : e.IsDate)
    (h : d.dayNumber = e.dayNumber) : d = e := by
  rw [← ofDayNumber_dayNumber hd, h, ofDayNumber_dayNumber he]

/-- Every number is some date's: one begins early enough and goes through the days. -/
theorem exists_dayNumber (n : Int) : ∃ d : Civil, d.IsDate ∧ d.dayNumber = n := by
  have hfirst : (⟨1970 - n.natAbs, 1, 1⟩ : Civil).IsDate :=
    ⟨Nat.le_refl 1, Nat.le_add_left 1 11, Nat.le_refl 1, monthLength_pos _ _⟩
  have hearly : (⟨1970 - n.natAbs, 1, 1⟩ : Civil).dayNumber ≤ n := by
    rw [dayNumber_eq]
    simp only [marchYear, dayOfYear, fromMarch, daysBeforeMonth]
    omega
  obtain ⟨hdate, hnumber⟩ := dayNumber_iterate_next hfirst
    (n - (⟨1970 - n.natAbs, 1, 1⟩ : Civil).dayNumber).toNat
  refine ⟨_, hdate, ?_⟩
  rw [hnumber]
  omega

/-- The date of a number exists, and the number is found again from it. -/
theorem isDate_ofDayNumber (n : Int) : (ofDayNumber n).IsDate := by
  obtain ⟨d, hdate, rfl⟩ := exists_dayNumber n
  rwa [ofDayNumber_dayNumber hdate]

theorem dayNumber_ofDayNumber (n : Int) : (ofDayNumber n).dayNumber = n := by
  obtain ⟨d, hdate, rfl⟩ := exists_dayNumber n
  rw [ofDayNumber_dayNumber hdate]

end Civil

end BindingRegistry.Time
