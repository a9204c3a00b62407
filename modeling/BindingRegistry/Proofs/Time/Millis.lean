import BindingRegistry.Proofs.Time.Written

/-!
Milliseconds from the epoch. A number of milliseconds and its digits are cut off
to a whole second toward the epoch: from 1970 on, and at whole seconds, that is
the second they fall in, the one that the written form of the same moment has
before its fraction; before 1970 it is the second after it.
-/
namespace BindingRegistry.Time

open Text (Blanks between)

/-- A number of 64 bits stands for the same milliseconds as its digits do. -/
theorem ofValue_millis {ms : Int} (hlow : Width.i64.least ≤ ms) (hhigh : ms ≤ Width.i64.greatest)
    {before after : List Char} (hb : Blanks before) (ha : Blanks after) :
    ofValue (.integer ms) = ofMillis ms ∧
      ofValue (.string (between before (Decimal.intText ms).toList after)) = ofMillis ms := by
  have hread := Signed.read_intText ms
  rw [if_neg (by omega), if_neg (by omega)] at hread
  constructor
  · rw [ofValue, millisOfInteger, if_pos hhigh]
  · simp only [ofValue, ofText, Text.trimChars_between hb (Decimal.solid_intText ms)
      (Decimal.intText_ne_nil ms) ha, hread]

def Instant.ofMilliseconds (ms : Int) : Instant := ⟨ms / 1000, (ms % 1000).toNat * 1000000⟩

theorem Instant.millis_ofMilliseconds (ms : Int) : (Instant.ofMilliseconds ms).millis = ms := by
  have hnanos : (ms % 1000).toNat * 1000000 / 1000000 = (ms % 1000).toNat :=
    Nat.mul_div_cancel _ (by decide)
  simp only [Instant.millis, Instant.ofMilliseconds, hnanos]
  omega

theorem Instant.nanos_ofMilliseconds_lt (ms : Int) :
    (Instant.ofMilliseconds ms).nanos < nanosPerSecond := by
  show (ms % 1000).toNat * 1000000 < 1000000000
  omega

theorem Instant.millis_whole (seconds : Int) : (⟨seconds, 0⟩ : Instant).millis = seconds * 1000 := by
  simp [Instant.millis]

/-- The milliseconds of a whole second in range stand for that second. -/
theorem ofMillis_whole {seconds : Int} (hrange : (⟨seconds, 0⟩ : Instant).inRange = true) :
    ofMillis (seconds * 1000) = .ok ⟨seconds, 0⟩ := by
  have hback : (seconds * 1000).tdiv 1000 = seconds := Int.mul_tdiv_cancel _ (by decide)
  rw [ofMillis, hback]
  exact if_pos hrange

/-- Cutting off toward the epoch goes down from the epoch on, and up before it except at whole
seconds. -/
theorem tdiv_thousand (ms : Int) :
    ms.tdiv 1000 = if 0 ≤ ms ∨ 1000 ∣ ms then ms / 1000 else ms / 1000 + 1 := by
  rw [Int.tdiv_eq_ediv]
  split
  · exact Int.add_zero _
  · rfl

/-- The second to which milliseconds are cut off is in range with them. -/
theorem ofMillis_eq {ms : Int} (hrange : (Instant.ofMilliseconds ms).inRange = true) :
    ofMillis ms = .ok ⟨ms.tdiv 1000, 0⟩ := by
  have hcut := tdiv_thousand ms
  rw [Instant.inRange_iff, Instant.ofMilliseconds] at hrange
  have hkept : (⟨ms.tdiv 1000, 0⟩ : Instant).inRange = true := by
    rw [Instant.inRange_iff]
    simp only at hrange ⊢
    omega
  rw [ofMillis]
  exact if_pos hkept

/-- The milliseconds of every instant in range fit a number of 64 bits. -/
theorem Instant.millis_bounds {t : Instant} (hrange : t.inRange = true)
    (hnanos : t.nanos < nanosPerSecond) :
    Width.i64.least ≤ t.millis ∧ t.millis ≤ Width.i64.greatest := by
  have hleast : Width.i64.least = -9223372036854775808 := rfl
  have hgreatest : Width.i64.greatest = 9223372036854775807 := rfl
  have hsecond : nanosPerSecond = 1000000000 := rfl
  rw [Instant.inRange_iff] at hrange
  rw [Instant.millis]
  omega

/-- A number of milliseconds in range and its digits stand for one instant at a whole second. From
the epoch on, and at whole seconds, it is the second the milliseconds fall in, and its date and its
time of day are those of the text of the moment, whose fraction alone is left out. Before the epoch
it is the whole second after them. The text itself keeps its fraction. -/
theorem millis_cut_toward_epoch {ms : Int} (hrange : (Instant.ofMilliseconds ms).inRange = true)
    {before after : List Char} (hb : Blanks before) (ha : Blanks after) :
    let moment := Instant.ofMilliseconds ms
    ∃ t : Instant,
      ofValue (.integer ms) = .ok t ∧
      ofValue (.string (between before (Decimal.intText ms).toList after)) = .ok t ∧
      t.nanos = 0 ∧
      (0 ≤ ms ∨ 1000 ∣ ms → t.millis ≤ ms ∧ ms < t.millis + 1000 ∧
        t.date = moment.date ∧ t.secondOfDay = moment.secondOfDay ∧
        t.chars = t.wholeText ++ ['Z'] ∧
        moment.chars = t.wholeText ++ (fractionText moment.nanos ++ ['Z'])) ∧
      (ms < 0 → ¬1000 ∣ ms → t.millis - 1000 < ms ∧ ms < t.millis) ∧
      (0 ≤ moment.date.year → moment.date.year ≤ 9999 →
        ofValue (.string (between before moment.chars after)) = .ok moment) := by
  intro moment
  have hnanos : moment.nanos < nanosPerSecond := Instant.nanos_ofMilliseconds_lt ms
  have hbounds := moment.millis_bounds hrange hnanos
  rw [Instant.millis_ofMilliseconds] at hbounds
  obtain ⟨hnumber, htext⟩ := ofValue_millis hbounds.1 hbounds.2 hb ha
  have hkept := ofMillis_eq hrange
  have hcut := tdiv_thousand ms
  have hmillis := Instant.millis_whole (ms.tdiv 1000)
  refine ⟨⟨ms.tdiv 1000, 0⟩, hnumber.trans hkept, htext.trans hkept, rfl, fun hafter => ?_,
    fun hbefore hpart => ?_, fun hyear hyear' => ?_⟩
  · have hseconds : moment = ⟨ms.tdiv 1000, moment.nanos⟩ := by
      rw [hcut, if_pos hafter]
      rfl
    rw [if_pos hafter] at hcut
    rw [hmillis]
    refine ⟨by omega, by omega, ?_, ?_, Instant.chars_eq (Nat.zero_lt_succ _), ?_⟩
    · rw [hseconds]; rfl
    · rw [hseconds]; rfl
    · rw [moment.chars_eq hnanos, hseconds]; rfl
  · rw [if_neg (by omega)] at hcut
    rw [hmillis]
    omega
  · exact ofText_chars ⟨Civil.isDate_ofDayNumber _, hyear, hyear'⟩ hnanos hb ha

/-- A millisecond into the last second of 1999, and a second and a half before the epoch. -/
theorem millennium_and_before_epoch :
    (∃ t, ofValue (.integer 946684799001) = .ok t ∧ t.millis ≤ 946684799001 ∧
      t.date = ⟨1999, 12, 31⟩ ∧ t.secondOfDay = 86399) ∧
    (∃ t, ofValue (.string (between [' '] ['-', '1', '5', '0', '0'] [])) = .ok t ∧
      t.millis - 1000 < -1500 ∧ -1500 < t.millis) := by
  have hblank : Blanks [' '] := by decide
  have hnone : Blanks [] := List.forall_mem_nil _
  constructor
  · have hrange : (Instant.ofMilliseconds 946684799001).inRange = true := by decide
    obtain ⟨t, hnumber, -, -, hafter, -, -⟩ := millis_cut_toward_epoch hrange hnone hnone
    obtain ⟨hle, -, hdate, hsecond, -⟩ := hafter (.inl (by decide))
    exact ⟨t, hnumber, hle, hdate, hsecond⟩
  · have hrange : (Instant.ofMilliseconds (-1500)).inRange = true := by decide
    have hdigits : (Decimal.intText (-1500)).toList = ['-', '1', '5', '0', '0'] := by
      decide +kernel
    obtain ⟨t, -, htext, -, -, hbefore, -⟩ := millis_cut_toward_epoch hrange hblank hnone
    rw [hdigits] at htext
    exact ⟨t, htext, hbefore (by decide) (by decide)⟩

/-- The millisecond before the epoch does not stay in its second, nor in its year. -/
theorem millisecond_before_epoch :
    (Instant.ofMilliseconds (-1)).inRange = true ∧ ofValue (.integer (-1)) = .ok .epoch ∧
    ¬Instant.epoch.millis ≤ -1 ∧ Instant.epoch.date = ⟨1970, 1, 1⟩ ∧
    (Instant.ofMilliseconds (-1)).date = ⟨1969, 12, 31⟩ := by
  decide

end BindingRegistry.Time
