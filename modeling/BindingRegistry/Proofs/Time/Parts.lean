import Mathlib.Tactic.IntervalCases
import BindingRegistry.Proofs.Time.Calendar
import BindingRegistry.Proofs.Time.WordByWord

/-!
The parts of written times: names of months and weekdays, the time of day and
the offset from universal time. Each is taken by the items for it and by no more
than them, and refused by those for the others.
-/
namespace BindingRegistry.Time

open Decimal (padded isDigit)
open Text (Ends IsWord)

/-- The name of a month as it stands in a date. -/
def monthText (m : Nat) : List Char :=
  let names := ["Jan", "Feb", "Mar", "Apr", "May", "Jun", "Jul", "Aug", "Sep", "Oct", "Nov", "Dec"]
  (names[m - 1]?.getD "").toList

def weekdayText (i : Nat) : List Char :=
  let names := ["Monday", "Tuesday", "Wednesday", "Thursday", "Friday", "Saturday", "Sunday"]
  (names[i]?.getD "").toList

structure Clock where
  hour : Nat
  minute : Nat
  second : Nat
  hour_lt : hour < 24
  minute_lt : minute < 60
  second_lt : second < 60

namespace Clock

def total (c : Clock) : Nat := c.hour * 3600 + c.minute * 60 + c.second

def shortText (c : Clock) : List Char := padded 2 c.hour ++ ':' :: padded 2 c.minute

def text (c : Clock) : List Char := c.shortText ++ ':' :: padded 2 c.second

end Clock

structure Offset where
  west : Bool
  hours : Nat
  minutes : Nat
  hours_lt : hours < 24
  minutes_lt : minutes < 60

namespace Offset

/-- The seconds by which the time there is ahead of universal time. -/
def seconds (o : Offset) : Int := Binary.signed o.west (o.hours * 3600 + o.minutes * 60)

/-- The sign, the hours and the minutes behind a mark. -/
def text (o : Offset) (mark : List Char) : List Char :=
  (if o.west then '-' else '+') :: (padded 2 o.hours ++ (mark ++ padded 2 o.minutes))

theorem natAbs_seconds_lt (o : Offset) : (o.seconds.natAbs : Int) < secondsPerDay := by
  have hhours := o.hours_lt
  have hminutes := o.minutes_lt
  unfold seconds Binary.signed secondsPerDay
  split <;> omega

end Offset

/-- Neither white space nor part of a number. -/
structure Plain (c : Char) : Prop where
  blank : Text.isBlank c = false
  digit : isDigit c = false
  plus : c ≠ '+'
  minus : c ≠ '-'

theorem plain_of_isUpper {c : Char} (h : c.isUpper = true) : Plain c := by
  obtain ⟨hlow, hhigh⟩ : 'A'.val ≤ c.val ∧ c.val ≤ 'Z'.val := of_decide_eq_true h
  have hbounds : 65 ≤ c.toNat ∧ c.toNat ≤ 90 :=
    ⟨UInt32.le_iff_toNat_le.1 hlow, UInt32.le_iff_toNat_le.1 hhigh⟩
  refine ⟨?_, ?_, ?_, ?_⟩
  · simp only [Text.isBlank, Bool.or_eq_false_iff, Bool.and_eq_false_iff, decide_eq_false_iff_not]
    omega
  · cases hdigit : isDigit c with
    | false => rfl
    | true =>
      have hn := Decimal.toNat_of_isDigit hdigit
      omega
  · rintro rfl
    cases h
  · rintro rfl
    cases h

section Names

variable {i : Nat} (hi : i < 7) (fs : Fields)
include hi

theorem takes_weekday : Takes [.weekdayName false] fs ((weekdayText i).take 3)
    { fs with weekday := some i } := by
  refine Takes.of_item fun rest => ?_
  interval_cases i <;> rfl

theorem takes_longWeekday : Takes [.weekdayName true, .literal ','] fs (weekdayText i ++ [','])
    { fs with weekday := some i } := by
  intro more rest
  interval_cases i <;> rfl

omit fs in
/-- No name of a weekday, short or long, begins like a number. -/
theorem exists_weekday_eq {name : List Char}
    (hname : name = weekdayText i ∨ name = (weekdayText i).take 3) :
    ∃ c cs, name = c :: cs ∧ Plain c := by
  rcases hname with rfl | rfl <;> interval_cases i <;>
    exact ⟨_, _, rfl, rfl, rfl, by decide, by decide⟩

omit fs in
theorem isWord_weekday {name : List Char}
    (hname : name = weekdayText i ∨ name = (weekdayText i).take 3) : IsWord name := by
  rcases hname with rfl | rfl <;> interval_cases i <;> exact ⟨by decide, by decide⟩

/-- A short name is taken where a long one may stand. -/
theorem takes_shortWeekday (long : Bool) : Takes [.weekdayName long, .literal ','] fs
    ((weekdayText i).take 3 ++ [',']) { fs with weekday := some i } := by
  intro more rest
  cases long <;> interval_cases i <;> rfl

/-- Behind the first three letters neither the rest of the name nor a comma is a month. -/
theorem refuses_weekdayComma {name : List Char}
    (hname : name = weekdayText i ∨ name = (weekdayText i).take 3) (items : List Item)
    (rest : List Char) :
    Refuses (.weekdayName false :: .blank :: .monthName :: items) fs (name ++ [','] ++ rest) := by
  rcases hname with rfl | rfl <;> interval_cases i <;> exact ⟨_, rfl⟩

end Names

theorem takes_month {m : Nat} (hpos : 1 ≤ m) (hle : m ≤ 12) (fs : Fields) :
    Takes [.monthName] fs (monthText m) (fs.set .month m) := by
  refine Takes.of_item fun rest => ?_
  interval_cases m <;> rfl

theorem isWord_month {m : Nat} (hpos : 1 ≤ m) (hle : m ≤ 12) : IsWord (monthText m) := by
  interval_cases m <;> exact ⟨by decide, by decide⟩

theorem isWord_padded (w n : Nat) : IsWord (padded w n) :=
  ⟨Decimal.padded_ne_nil w n, Decimal.solid_padded w n⟩

theorem isDigit_of_isBlank {c : Char} (h : Text.isBlank c = true) : isDigit c = false := by
  cases hdigit : isDigit c with
  | false => rfl
  | true =>
    rw [Decimal.isBlank_of_isDigit hdigit] at h
    cases h

theorem stops_of_ends {rest : List Char} (h : Ends rest) : Stops rest :=
  fun c hc => isDigit_of_isBlank (h c hc)

section Numbers

variable {f : Field} {v w n : Nat}

/-- A number may have fewer digits than its width if none follows. -/
theorem Field.Fits.matchItem_number (h : f.Fits w n) (hvw : v ≤ w) (fs : Fields) {rest : List Char}
    (hstop : Stops rest) :
    matchItem (.number f w) fs (padded v n ++ rest) = .ok (fs.set f n, rest) := by
  rw [matchItem_number_digits (fun _ hc => Decimal.isDigit_of_mem_padded hc)
    (Decimal.padded_ne_nil v n) (Decimal.length_padded_le hvw h.width_pos h.lt_tenTo) rest
    (.inr hstop), Decimal.value_padded]
  exact setField_of_bounds h.least_le h.le_greatest fs rest

theorem Field.Fits.takesWord_number (h : f.Fits w n) (hvw : v ≤ w) (fs : Fields) :
    TakesWord [.number f w] fs (padded v n) (fs.set f n) := by
  intro rest hrest
  exact matchItems_of_ok (h.matchItem_number hvw fs (stops_of_ends hrest))

/-- No mark stands behind the number. -/
theorem Field.Fits.refuses_numberMark (h : f.Fits w n) (hvw : v ≤ w) {c : Char}
    (hc : Text.isBlank c = false) (items : List Item) (fs : Fields) {rest : List Char}
    (hrest : Ends rest) :
    Refuses (.number f w :: .literal c :: items) fs (padded v n ++ rest) := by
  have hitem := h.matchItem_number hvw fs (stops_of_ends hrest)
  have hmark : Refuses (.literal c :: items) (fs.set f n) rest := by
    cases rest with
    | nil => exact .of_item items rfl
    | cons d rest =>
      refine refuses_literal ?_ items _ rest
      rintro rfl
      rw [hrest d rfl] at hc
      cases hc
  obtain ⟨e, he⟩ := hmark
  exact ⟨e, (matchItems_of_ok hitem).trans he⟩

end Numbers

section

variable {c : Char} (hc : Plain c)
include hc

theorem Plain.scanNumber_error (most : Nat) (rest : List Char) :
    ∃ e, scanNumber 1 most (c :: rest) = .error e :=
  scanNumber_short most (List.forall_mem_nil _) Nat.zero_lt_one (stops_cons hc.digit rest)

theorem Plain.dropWhile_eq (rest : List Char) :
    (c :: rest).dropWhile Text.isBlank = c :: rest :=
  List.dropWhile_cons_of_neg (by simp [hc.blank])

theorem Plain.refuses_number (f : Field) (w : Nat) (items : List Item) (fs : Fields)
    (rest : List Char) : Refuses (.number f w :: items) fs (c :: rest) := by
  obtain ⟨e, he⟩ := hc.scanNumber_error w rest
  refine .of_item items (e := e) ?_
  rw [matchItem, hc.dropWhile_eq, he]
  rfl

theorem Plain.refuses_signedYear (items : List Item) (fs : Fields) (rest : List Char) :
    Refuses (.signedYear :: items) fs (c :: rest) := by
  obtain ⟨e, he⟩ := hc.scanNumber_error 4 rest
  refine .of_item items (e := e) ?_
  rw [matchItem, hc.dropWhile_eq]
  -- without a sign only the last branch is left
  split
  · next heq => exact absurd (List.cons.inj heq).1 hc.minus
  · next heq => exact absurd (List.cons.inj heq).1 hc.plus
  · rw [he]
    rfl

end

/-- All digits behind the sign of a year are taken for it. -/
theorem matchItem_signedYear_sign (west : Bool) {ds rest : List Char}
    (hds : ∀ c ∈ ds, isDigit c = true) (hne : ds ≠ []) (hstop : Stops rest) (fs : Fields) :
    ∃ n, matchItem .signedYear fs ((if west then '-' else '+') :: (ds ++ rest)) =
      setField fs .year n rest := by
  have hle : ds.length ≤ (ds ++ rest).length := by simp
  have hscan := scanNumber_digits hds (List.length_pos_iff.2 hne) hle (.inr hstop)
  cases west with
  | false =>
    have hplus : matchItem .signedYear fs ('+' :: (ds ++ rest)) =
      (scanNumber 1 (ds ++ rest).length (ds ++ rest) >>= fun p => setField fs .year p.1 p.2.2) :=
        rfl
    exact ⟨_, by rw [if_neg Bool.false_ne_true, hplus, hscan]; rfl⟩
  | true =>
    have hminus : matchItem .signedYear fs ('-' :: (ds ++ rest)) =
      (scanNumber 1 (ds ++ rest).length (ds ++ rest) >>= fun p => setField fs .year (-p.1) p.2.2) :=
        rfl
    exact ⟨_, by rw [if_pos rfl, hminus, hscan]; rfl⟩

/-- The strict form takes no text that begins with less than four digits. -/
theorem strict_refuses {ds rest : List Char} (hds : ∀ c ∈ ds, isDigit c = true)
    (hshort : ds.length < 4) (hstop : Stops rest) (fs : Fields) :
    Refuses strictItems fs (ds ++ rest) := by
  obtain ⟨e, he⟩ := scanNumber_short 4 hds hshort hstop
  refine .of_item (strictItems.drop 1) (e := e) ?_
  rw [matchItem, he]
  rfl

namespace Clock

variable (c : Clock)

theorem fits_hour : Field.hour.Fits 2 c.hour :=
  Field.fits_two (by decide) (Nat.zero_le _) (Nat.le_of_lt_succ c.hour_lt)

theorem fits_minute : Field.minute.Fits 2 c.minute :=
  Field.fits_two (by decide) (Nat.zero_le _) (Nat.le_of_lt_succ c.minute_lt)

theorem fits_second : Field.second.Fits 2 c.second :=
  Field.fits_two (by decide) (Nat.zero_le _) (Nat.le_succ_of_le (Nat.le_of_lt_succ c.second_lt))

theorem total_lt : (c.total : Int) < secondsPerDay := by
  have hhour := c.hour_lt
  have hminute := c.minute_lt
  have hsecond := c.second_lt
  unfold total secondsPerDay
  omega

theorem isWord_shortText : IsWord c.shortText :=
  (isWord_padded 2 _).append (Decimal.solid_marked rfl 2 _)

theorem isWord_text : IsWord c.text := c.isWord_shortText.append (Decimal.solid_marked rfl 2 _)

theorem takes_shortText (fs : Fields) :
    Takes [.number .hour 2, .literal ':', .number .minute 2] fs c.shortText
      ((fs.set .hour c.hour).set .minute c.minute) :=
  (c.fits_hour.takes_number fs).append (c.fits_minute.takes_markedNumber ':' _)

theorem takes_text (fs : Fields) : Takes clock fs c.text
    (((fs.set .hour c.hour).set .minute c.minute).set .second c.second) :=
  (c.takes_shortText fs).append (c.fits_second.takes_markedNumber ':' _)

end Clock

theorem scanPair_digits {a b : Char} (ha : isDigit a = true) (hb : isDigit b = true)
    (rest : List Char) : scanPair (a :: b :: rest) = .ok (Decimal.value [a, b], rest) := by
  have hbytes : ¬byteCount (a :: b :: rest) < 2 := by
    have hfirst := a.utf8Size_pos
    have hsecond := b.utf8Size_pos
    simp only [byteCount, sumBy]
    omega
  rw [scanPair, if_neg hbytes]
  simp only [ha, hb, Bool.and_self, if_true]

/-- Two digits are read as their number whatever stands behind them. -/
theorem scanPair_padded {n : Nat} (hn : n < 100) (rest : List Char) :
    scanPair (padded 2 n ++ rest) = .ok (n, rest) := by
  have hlength := Decimal.length_padded (w := 2) Nat.zero_lt_two (show n < tenTo 2 from hn)
  have hall : ∀ c ∈ padded 2 n, isDigit c = true := fun _ hc => Decimal.isDigit_of_mem_padded hc
  have hvalue := Decimal.value_padded 2 n
  match hp : padded 2 n, hlength with
  | [a, b], _ =>
    rw [hp] at hall hvalue
    rw [← hvalue]
    exact scanPair_digits (hall a (by simp)) (hall b (by simp)) rest

namespace Offset

variable (o : Offset)

theorem scanOffset_text {loose : Bool} {mark : List Char}
    (hmark : ∀ rest, scanColon loose (mark ++ (padded 2 o.minutes ++ rest)) =
      .ok (padded 2 o.minutes ++ rest)) (rest : List Char) :
    scanOffset loose (o.text mark ++ rest) = .ok (o.seconds, rest) := by
  have hhours := o.hours_lt
  have hminutes := o.minutes_lt
  have hsign (cs : List Char) :
      scanSign ((if o.west then '-' else '+') :: cs) = .ok (o.west, cs) := by
    cases o.west <;> rfl
  rw [scanOffset, text, List.cons_append, hsign, List.append_assoc, List.append_assoc]
  simp only [bind, Except.bind, scanPair_padded (by omega : o.hours < 100), hmark,
    scanPair_padded (by omega : o.minutes < 100), if_neg (Nat.not_le_of_lt hminutes)]
  rfl

theorem takes_numeric (fs : Fields) : Takes [.offset numericOffset] fs (o.text [])
    { fs with offset := some o.seconds } := by
  refine Takes.of_item fun rest => ?_
  have hcolon (rest : List Char) : scanColon true ([] ++ (padded 2 o.minutes ++ rest)) =
      .ok (padded 2 o.minutes ++ rest) := by
    obtain ⟨c, cs, hp, hc⟩ := Decimal.exists_padded_eq 2 o.minutes
    have hmark : c ≠ ':' := by
      rintro rfl
      cases hc
    have hkept : ¬((c = ':' || Text.isBlank c) = true) := by
      simp [hmark, Decimal.isBlank_of_isDigit hc]
    rw [hp]
    exact congrArg Except.ok (List.dropWhile_cons_of_neg hkept)
  have hsign : (o.text [] ++ rest).dropWhile Text.isBlank = o.text [] ++ rest := by
    rw [text]
    cases o.west <;> rfl
  rw [matchItem, matchOffset]
  simp only [numericOffset, if_true, hsign, Bool.false_eq_true, if_false,
    o.scanOffset_text hcolon rest]
  rfl

theorem takes_strict (fs : Fields) : Takes [.offset strictOffset] fs (o.text [':'])
    { fs with offset := some o.seconds } := by
  refine Takes.of_item fun rest => ?_
  have hcolon (rest : List Char) : scanColon false ([':'] ++ (padded 2 o.minutes ++ rest)) =
      .ok (padded 2 o.minutes ++ rest) := rfl
  have hletter : dropWord? ['z'] (o.text [':'] ++ rest) = none := by
    rw [text]
    cases o.west <;> rfl
  rw [matchItem, matchOffset]
  simp only [strictOffset, if_true, hletter, Bool.false_eq_true, if_false,
    o.scanOffset_text hcolon rest]
  rfl

/-- An offset may pass for a year with a sign, but then nothing behind it is taken. -/
theorem fails_signedYear (fs : Fields) (v : List Char) (vs : List (List Char)) :
    Fails [[.signedYear]] fs (o.text [] :: v :: vs) := by
  refine Fails.of_more fun rest hrest => ?_
  have hdigits : ∀ c ∈ padded 2 o.hours ++ padded 2 o.minutes, isDigit c = true :=
    List.forall_mem_append.2 ⟨fun _ hc => Decimal.isDigit_of_mem_padded hc,
      fun _ hc => Decimal.isDigit_of_mem_padded hc⟩
  have hne : padded 2 o.hours ++ padded 2 o.minutes ≠ [] :=
    List.append_ne_nil_of_left_ne_nil (Decimal.padded_ne_nil 2 _) _
  obtain ⟨n, hn⟩ := matchItem_signedYear_sign o.west hdigits hne (stops_of_ends hrest) fs
  rcases setField_cases fs .year n rest with ⟨fs', hset⟩ | ⟨e, hset⟩
  · exact .inl ⟨fs', matchItems_of_ok (hn.trans hset)⟩
  · exact .inr (.of_item [] (hn.trans hset))

theorem solid_text {mark : List Char} (hmark : Text.Solid mark) :
    Text.Solid (o.text mark) := by
  have hnumbers := (Decimal.solid_padded 2 o.hours).append
    (hmark.append (Decimal.solid_padded 2 o.minutes))
  refine Text.Solid.cons_iff.2 ⟨?_, hnumbers⟩
  cases o.west <;> rfl

end Offset

end BindingRegistry.Time
