import BindingRegistry.Proofs.Param.IntegerText
import BindingRegistry.Proofs.Param.RoundTrip
import BindingRegistry.Proofs.Time.Relaxed
import BindingRegistry.Proofs.Time.Written

/-!
Timestamps on their way from one binding to another. An instant is returned as
its text, and a parameter takes the very instant back from it: by the built-in
converter, whose first layout is the strict form, and without a converter by the
relaxed form, which takes whatever an instant is written as just as well.
-/
namespace BindingRegistry

namespace Time

open Decimal (padded)

/-- The fraction of a second in `w` places; none at all for no place. -/
def fractionIn (w nanos : Nat) : List Char :=
  if w = 0 then [] else '.' :: padded w (nanos / tenTo (9 - w))

/-- The number of places a fraction of a second is written with. -/
def fractionPlaces (nanos : Nat) : Nat :=
  if nanos = 0 then 0 else if nanos % 1000000 = 0 then 3 else if nanos % 1000 = 0 then 6 else 9

theorem fractionText_eq (nanos : Nat) :
    fractionText nanos = fractionIn (fractionPlaces nanos) nanos := by
  have hwhole : nanos / tenTo (9 - 9) = nanos := Nat.div_one nanos
  unfold fractionText fractionPlaces
  split
  · rfl
  · split
    · rfl
    · split
      · rfl
      · rw [fractionIn, if_neg (by decide), hwhole]

theorem fractionPlaces_mem (nanos : Nat) : fractionPlaces nanos ∈ [0, 3, 6, 9] := by
  unfold fractionPlaces
  repeat' split
  all_goals decide

/-- The places are as few as write the fraction exactly. -/
theorem fractionPlaces_exact {nanos : Nat} (h : nanos < nanosPerSecond) :
    nanos % tenTo (9 - fractionPlaces nanos) = 0 ∧
      ∀ w ∈ [0, 3, 6, 9], nanos % tenTo (9 - w) = 0 → fractionPlaces nanos ≤ w := by
  have hnone : tenTo (9 - 0) = 1000000000 := rfl
  have hmillis : tenTo (9 - 3) = 1000000 := rfl
  have hmicros : tenTo (9 - 6) = 1000 := rfl
  have hall : tenTo (9 - 9) = 1 := rfl
  have hsecond : nanosPerSecond = 1000000000 := rfl
  simp only [List.forall_mem_cons, hnone, hmillis, hmicros, hall]
  unfold fractionPlaces
  split
  · next hzero => exact ⟨by rw [hzero]; rfl, by simp⟩
  · split
    · next hexact => exact ⟨hexact, by omega, by simp⟩
    · split
      · next hexact => exact ⟨hexact, by omega, by omega, by simp⟩
      · exact ⟨Nat.mod_one nanos, by omega, by omega, by omega, by simp⟩

/-- The relaxed form takes the text of every instant in the years with four digits and names the
instant, as the strict form does. -/
theorem readRelaxed_text {t : Instant} (h : t.date.IsFourDigit)
    (hnanos : t.nanos < nanosPerSecond) : readRelaxed t.text = .ok t := by
  have hloose := relaxed_of_strict (List.forall_mem_nil _) (List.forall_mem_nil _)
    (takes_chars h hnanos).matchItems
  rw [List.nil_append, List.append_nil] at hloose
  rw [readRelaxed, Instant.text, String.toList_ofList, parseItems_of_ok hloose, t.resolve_ended h]

theorem ofText_text {t : Instant} (h : t.date.IsFourDigit) (hnanos : t.nanos < nanosPerSecond) :
    ofText t.text = .ok t := by
  have hread := ofText_chars h hnanos (List.forall_mem_nil _) (List.forall_mem_nil _)
  rwa [Text.between, List.nil_append, List.append_nil] at hread

end Time

open Time (Instant nanosPerSecond fractionIn)

/-- No converter for instants, or the built-in one. -/
def Converters.StockTime (cs : Converters) : Prop :=
  cs.get? .time = none ∨ cs.get? .time = some timeConverter

/-- The text of an instant is converted to the instant by the built-in converter and without one. -/
theorem convert_time_text {t : Instant} (h : t.date.IsFourDigit) (hnanos : t.nanos < nanosPerSecond)
    {cs : Converters} (hcs : cs.StockTime) :
    cs.convert .time (.string t.text) = pure (.ok t) := by
  rcases hcs with hnone | hsome
  · have hdecode : Ty.decode .time (.string t.text) = .ok t := by
      rw [Ty.decode, Reading.time, Time.readRelaxed_text h hnanos]
      rfl
    rw [Converters.convert_of_none hnone, Converters.coerce_text rfl, hdecode]
  · have hmade : Converters.timeConverter (.string t.text) = .ok ⟨.time, t⟩ := by
      rw [Converters.timeConverter, Time.ofValue, Time.ofText_text h hnanos]
    have hattempt : cs.attempt .time (.string t.text) = pure (some t) := by
      rw [Converters.attempt, hsome]
      simp only [hmade]
      rfl
    rw [Converters.convert, hattempt]
    rfl

/-- An instant in the years with four digits is returned as one text, with as few places of its
fraction as are exact. A parameter takes the very instant back from that text, with the built-in
converter for instants and without one. So of two bindings one can return an instant and the other
be called with the returned value: whenever its filters let that call pass, it runs on the instant
that was returned. -/
theorem timestamp_round_trip {σ : Type} {t : Instant} (hyear : 0 ≤ t.date.year)
    (hyear' : t.date.year ≤ 9999) (hnanos : t.nanos < nanosPerSecond) {cs : Converters}
    (hcs : cs.StockTime) :
    (Returns.typed .time).intoValues t = .ok [.string t.text] ∧
    (∃ places ∈ [0, 3, 6, 9],
      t.text = String.ofList (t.wholeText ++ (fractionIn places t.nanos ++ ['Z'])) ∧
      t.nanos % tenTo (9 - places) = 0 ∧
      ∀ w ∈ [0, 3, 6, 9], t.nanos % tenTo (9 - w) = 0 → places ≤ w) ∧
    cs.convert .time (.string t.text) = pure (.ok t) ∧
    ∀ (giver taker : Binding σ) (ps : List Ty) (give : Args ps → Action σ Instant)
      (returns : Returns) (take : Args [.time] → Action σ returns.Denote),
      giver.callable.operation? = some ⟨ps, .typed .time, give⟩ →
      taker.callable.operation? = some ⟨[.time], returns, take⟩ → taker.injectedCount = 0 →
      ∀ call args s as s₁, Follows giver ⟨ps, .typed .time, give⟩ cs call args s (.ran as) s₁ →
        ∀ s₂, (give as).result s₁ = (t, s₂) →
          (invoke giver cs call args).result s = (.ok (.string t.text), s₂) ∧
          ∀ call' is s' s₃,
            ChainRun taker.outline taker.filters (taker.merged call') s' true is s₃ →
            (invoke taker cs call' [.string t.text]).result s' =
              (firstOf (returns.intoValues ((take (t, ())).result s₃).1),
                ((take (t, ())).result s₃).2) := by
  have hdate : t.date.IsFourDigit := ⟨Time.Civil.isDate_ofDayNumber _, hyear, hyear'⟩
  have hback := convert_time_text hdate hnanos hcs
  refine ⟨rfl, ⟨Time.fractionPlaces t.nanos, Time.fractionPlaces_mem _, ?_,
    Time.fractionPlaces_exact hnanos⟩, hback, ?_⟩
  · rw [Instant.text, t.chars_eq hnanos, Time.fractionText_eq]
  · intro giver taker ps give returns take hgive htake hfree call args s as s₁ hran s₂ hgiven
    refine ⟨?_, fun call' is s' s₃ hc => ?_⟩
    · have hresult := hran.result hgive
      rw [Course.ending] at hresult
      simp only [hgiven] at hresult
      exact hresult
    · have hassemble : taker.assemble is [.string t.text] = .ok [.supplied (.string t.text)] := by
        rw [Binding.assemble, Binding.slots_of_single (Callable.params_of_operation htake) hfree]
        rfl
      have hfits : Fits cs [.time] [.supplied (.string t.text)] (t, ()) :=
        fits_cons (.supplied (congrArg Logged.value hback)) (fits_nil cs)
      exact (Follows.ran hc hassemble hfits).result htake

/-- An hour, a minute, a second and half a millisecond into the leap day of the year zero. -/
def leapMoment : Instant := ⟨-62162117939, 500000⟩

def leapGiver : Binding Unit :=
  .ofCallable ⟨"main", "moment"⟩ (.function ⟨[], .typed .time, fun _ => pure leapMoment⟩)

/-- A function that gives back the moment it is called with. -/
def momentTaker : Binding Unit := .ofCallable ⟨"main", "keep"⟩ (.function (.identity .time))

/-- The moment is returned with six places of its fraction, and comes back in the same text. -/
theorem leap_moment_kept :
    let stock := (Converters.install .empty).value
    let text := "0000-02-29T01:01:01.000500Z"
    (Converters.convert .empty .time (.string text)).value = .ok leapMoment ∧
    (invoke leapGiver stock .empty []).result () = (.ok (.string text), ()) ∧
    (invoke momentTaker stock .empty [.string text]).result () = (.ok (.string text), ()) := by
  intro stock text
  have htext : leapMoment.text = text := by decide +kernel
  have hlow : 0 ≤ leapMoment.date.year := by decide
  have hhigh : leapMoment.date.year ≤ 9999 := by decide
  have hnanos : leapMoment.nanos < nanosPerSecond := by decide
  have hnone : Converters.StockTime .empty := .inl rfl
  have hbuiltin : stock.StockTime := .inr rfl
  have hbare := timestamp_round_trip (σ := Unit) hlow hhigh hnanos hnone
  have hstock := timestamp_round_trip (σ := Unit) hlow hhigh hnanos hbuiltin
  obtain ⟨hgiven, htaken⟩ := hstock.2.2.2 leapGiver momentTaker _ _ _ _ rfl rfl rfl .empty [] () ()
    () (.ran (.done _ _) rfl (fits_nil _)) () rfl
  rw [htext] at hbare hgiven htaken
  refine ⟨congrArg Logged.value hbare.2.2.1, hgiven, (htaken .empty _ () () (.done _ _)).trans ?_⟩
  rw [← htext]
  rfl

end BindingRegistry
