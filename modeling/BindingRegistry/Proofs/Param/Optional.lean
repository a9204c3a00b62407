import BindingRegistry.Converters.Builtin
import BindingRegistry.Proofs.Param.Fallthrough
import BindingRegistry.Proofs.Time.Relaxed

/-!
Optional parameters beside plain ones. An option has the class of its content, so
a text is read for both alike, and decoding goes on to the content. What sets the
two apart are converters, which are looked up by the exact type: a text or an
instant has a built-in one, an optional text or instant has none.
-/
namespace BindingRegistry

namespace Converters

variable {cs : Converters} {t : Ty} {v : Value}

/-- Under the type is what a registry starts with. -/
def BuiltInFor (cs : Converters) (t : Ty) : Prop := cs.get? t = (install .empty).value.get? t

theorem BuiltInFor.eq_none (h : cs.BuiltInFor t) (hstring : t ≠ .string) (htime : t ≠ .time) :
    cs.get? t = none := by
  refine h.trans ?_
  rw [get?_install]
  cases t with
  | string => exact absurd rfl hstring
  | time => exact absurd rfl htime
  | _ => rfl

/-- A text that is read as a number or a truth value is not read as nothing. -/
theorem ne_null_of_parsedText? {c : TypeClass} {s : String} (h : parsedText? c s = some v) :
    v ≠ .null := by
  rintro rfl
  cases c with
  | float =>
    obtain ⟨x, -, hx⟩ := Option.map_eq_some_iff.1 h
    cases hx
  | integer =>
    obtain ⟨n, -, hn⟩ := Option.map_eq_some_iff.1 h
    cases hn
  | bool =>
    simp only [parsedText?] at h
    split at h
    · cases h
    · split at h <;> cases h
  | _ => cases h

theorem coerce_of_not_readsText (h : t.coarse.readsText = false) (v : Value) :
    coerce t v = pure (t.decode v) := by
  cases v with
  | string s => exact coerce_text h s
  | _ => rfl

/-- Without converters an option takes what its content takes, for the same reasons. -/
theorem coerce_option (t : Ty) (hv : v ≠ .null) :
    coerce (.option t) v = (some <$> ·) <$> coerce t v := by
  have hdecode {w : Value} (hw : w ≠ .null) : (Ty.option t).decode w = some <$> t.decode w :=
    Ty.decode_option_of_ne_null t hw
  cases hreads : t.coarse.readsText with
  | false =>
    rw [coerce_of_not_readsText (t := .option t) hreads, coerce_of_not_readsText hreads, hdecode hv]
    rfl
  | true =>
    cases v with
    | string s =>
      cases hs : parsedText? t.coarse s with
      | some w =>
        rw [coerce_parsed (t := .option t) hreads hs, coerce_parsed hreads hs,
          hdecode (ne_null_of_parsedText? hs)]
        rfl
      | none =>
        rw [coerce_unparsed (t := .option t) hreads hs, coerce_unparsed hreads hs, hdecode hv]
        rfl
    | _ =>
      rw [coerce_of_kind (fun h => by cases h), coerce_of_kind (fun h => by cases h), hdecode hv]
      rfl

/-- The built-in converter for texts takes every value. -/
theorem convert_string (h : cs.BuiltInFor .string) (v : Value) :
    cs.convert .string v = pure (.ok v.plainText) :=
  convert_of_made (h.trans rfl) rfl

/-- The built-in converter for instants takes nothing for another instant than decoding does. -/
theorem convert_time (h : cs.BuiltInFor .time) {a : Time.Instant}
    (ha : Ty.decode .time v = .ok a) : (cs.convert .time v).value = .ok a := by
  have hentry : cs.get? .time = some timeConverter := h.trans rfl
  obtain ⟨s, rfl⟩ : ∃ s, v = .string s := by
    cases v <;> first | exact ⟨_, rfl⟩ | cases ha
  have hrelaxed : Time.readRelaxed s = .ok a := by
    rw [Ty.decode, Reading.time] at ha
    cases hread : Time.readRelaxed s with
    | error e =>
      rw [hread] at ha
      cases ha
    | ok b =>
      rw [hread] at ha
      cases ha
      rfl
  cases htext : Time.ofText s with
  | ok b =>
    obtain rfl := Time.ofText_of_readRelaxed hrelaxed htext
    have hmade : timeConverter (.string s) = .ok ⟨.time, b⟩ := by
      rw [timeConverter, Time.ofValue, htext]
    rw [convert_of_made hentry hmade]
    rfl
  | error e =>
    have hfails : timeConverter (.string s) = .error { message := e.message } := by
      rw [timeConverter, Time.ofValue, htext]
    have hnot (b : Time.Instant) : timeConverter (.string s) ≠ .ok ⟨.time, b⟩ := by
      rw [hfails]
      exact fun h => by cases h
    rw [convert_of_not_made hentry hnot, coerce_text rfl, Logged.value_pure, ha]

/-- The built-in converters change nothing about a value that is taken without them. -/
theorem convert_of_coerce (h : cs.BuiltInFor t) {a : t.Denote}
    (ha : (coerce t v).value = .ok a) : (cs.convert t v).value = .ok a := by
  by_cases htime : t = .time
  · subst htime
    rw [coerce_of_not_readsText rfl] at ha
    exact convert_time h ha
  · by_cases hstring : t = .string
    · subst hstring
      rw [coerce_of_not_readsText rfl] at ha
      rw [convert_string h]
      cases v with
      | string s => exact ha
      | _ => cases ha
    · rw [convert_of_none (h.eq_none hstring htime), ha]

end Converters

open Converters (BuiltInFor)

/-- An option advertises the class of its content, and where it takes a value that is not null, its
content is what the plain type takes. Texts and instants, for which there is a converter that
options do not have, aside, it takes what the plain type takes, and refuses the rest for the same
reason. A text is taken for an optional text as well, but values of other kinds, which the converter
writes as texts, are refused. And an optional instant takes what an instant takes by decoding
alone. -/
theorem option_converts_as_content {cs : Converters} {t : Ty} {v : Value} (hv : v ≠ .null)
    (hplain : cs.BuiltInFor t) (hoption : cs.BuiltInFor (.option t)) :
    signatureOf [.option t] = signatureOf [t] ∧
    (∀ a, (cs.convert (.option t) v).value = .ok a →
      ∃ b, a = some b ∧ (cs.convert t v).value = .ok b) ∧
    (t ≠ .time → (t = .string → v.kind = .string) →
      cs.convert (.option t) v = (some <$> ·) <$> cs.convert t v) ∧
    (t = .string → v.kind ≠ .string → (∃ b, (cs.convert t v).value = .ok b) ∧
      (cs.convert (.option t) v).value = .error (.incompatible v.kind .string)) ∧
    (t = .time → (cs.convert (.option t) v).value = some <$> t.decode v) := by
  have hbare : cs.convert (.option t) v = (some <$> ·) <$> Converters.coerce t v := by
    have hnone := hoption.eq_none (fun h => by cases h) (fun h => by cases h)
    rw [Converters.convert_of_none hnone, Converters.coerce_option t hv]
  refine ⟨rfl, fun a ha => ?_, fun htime htext => ?_, ?_, ?_⟩
  · rw [hbare] at ha
    obtain ⟨b, rfl, hb⟩ := Ty.some_map_eq_ok_iff.1 ha
    exact ⟨b, rfl, Converters.convert_of_coerce hplain hb⟩
  · have hplain' : cs.convert t v = Converters.coerce t v := by
      by_cases hstring : t = .string
      · subst hstring
        rw [Converters.convert_string hplain, Converters.coerce_of_not_readsText rfl]
        cases v with
        | string s => rfl
        | _ => cases htext rfl
      · exact Converters.convert_of_none (hplain.eq_none hstring htime) v
    rw [hbare, hplain']
  · rintro rfl hkind
    rw [Converters.convert_string hplain, hbare, Converters.coerce_of_not_readsText rfl]
    refine ⟨⟨_, rfl⟩, ?_⟩
    cases v with
    | string s => exact absurd rfl hkind
    | _ => rfl
  · rintro rfl
    rw [hbare, Converters.coerce_of_not_readsText rfl]
    rfl

/-- A number is taken for a text, and not for an optional text. -/
theorem five_for_texts :
    let stock := (Converters.install .empty).value
    (stock.convert .string (.integer 5)).value = .ok "5" ∧
    (stock.convert (.option .string) (.integer 5)).value =
      .error (.incompatible .integer .string) := by
  intro stock
  have hfive : (Value.integer 5).plainText = "5" := by decide +kernel
  refine ⟨?_, rfl⟩
  rw [Converters.convert_string rfl, hfive]
  rfl

/-- A text in the relaxed form is the same instant with the option and without it. -/
theorem noon_for_both :
    let stock := (Converters.install .empty).value
    let noon := Value.string "2024-2-29 12:00:00.5 +01:00"
    (stock.convert (.option .time) noon).value = .ok (some ⟨1709204400, 500000000⟩) ∧
    (stock.convert .time noon).value = .ok ⟨1709204400, 500000000⟩ := by
  intro stock noon
  have hread : Time.readRelaxed "2024-2-29 12:00:00.5 +01:00" = .ok ⟨1709204400, 500000000⟩ := by
    decide +kernel
  have hplain : stock.BuiltInFor .time := rfl
  have hbare : stock.BuiltInFor (.option .time) := rfl
  have hboth := option_converts_as_content (v := noon) nofun hplain hbare
  have hoption : (stock.convert (.option .time) noon).value =
      .ok (some ⟨1709204400, 500000000⟩) := by
    rw [hboth.2.2.2.2 rfl, Ty.decode, Reading.time, hread]
    rfl
  obtain ⟨b, hb, htime⟩ := hboth.2.1 _ hoption
  cases hb
  exact ⟨hoption, htime⟩

end BindingRegistry
