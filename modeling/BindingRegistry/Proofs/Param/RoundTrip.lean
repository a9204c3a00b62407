import BindingRegistry.Converters.Builtin
import BindingRegistry.Proofs.Invocation.Course
import BindingRegistry.Proofs.Number.Widening
import BindingRegistry.Registry.Builder

/-!
Typed content written as a value and read back. For types made of truth values,
numbers, texts and values by lists, maps and options, reading undoes writing,
floats bit for bit: neither the built-in converters nor the reading of texts
stands in the way, since no text is ever written for a type that reads texts.
So a function that gives back its argument gives back the value it was sent.
-/
namespace BindingRegistry

/-- A value that can be written: its whole numbers and floats are numbers of the written form, and
its objects are in key order. -/
inductive Value.Proper : Value → Prop where
  | null : Proper null
  | bool (b : Bool) : Proper (bool b)
  | integer {n : Int} : minInteger ≤ n → n ≤ maxInteger → Proper (integer n)
  | float {x : Binary64} : x.isFinite = true → Proper (float x)
  | string (s : String) : Proper (string s)
  | array {items : List Value} : (∀ v ∈ items, Proper v) → Proper (array items)
  | object {entries : List (String × Value)} : Ascending entries →
    (∀ e ∈ entries, Proper e.2) → Proper (object entries)

namespace Ty

/-- Content with a written form: every float in it is finite, every value in it is proper. -/
def Writable : (t : Ty) → t.Denote → Prop
  | f32, x => x.isFinite = true
  | f64, x => x.isFinite = true
  | value, v => v.Proper
  | list t, as => ∀ a ∈ as, t.Writable a
  | hashMap t, d => ∀ e ∈ d.entries, t.Writable e.2
  | treeMap t, d => ∀ e ∈ d.entries, t.Writable e.2
  | option t, a => ∀ b, a = some b → t.Writable b
  | _, _ => True

/-- The types whose content can be read back: an option only of a type that is never written as
null, since null stands for no content. -/
inductive Portable : Ty → Prop where
  | bool : Portable bool
  | int (w : Width) : Portable (int w)
  | f32 : Portable f32
  | f64 : Portable f64
  | string : Portable string
  | value : Portable value
  | list {t : Ty} : Portable t → Portable (list t)
  | hashMap {t : Ty} : Portable t → Portable (hashMap t)
  | treeMap {t : Ty} : Portable t → Portable (treeMap t)
  | option {t : Ty} : Portable t → (∀ a, t.Writable a → t.encode a ≠ .null) → Portable (option t)

theorem least_ge (w : Width) : Value.minInteger ≤ w.least := by cases w <;> decide

theorem greatest_le (w : Width) : w.greatest ≤ Value.maxInteger := by cases w <;> decide

end Ty

theorem Value.ofBinary64_of_isFinite {x : Binary64} (h : x.isFinite = true) :
    ofBinary64 x = float x := by rw [ofBinary64, if_pos h]

/-- Items that are read one by one from where they were written are all read. -/
theorem mapM_map_eq_ok {f : α → β} {g : β → Except ε α} {as : List α}
    (h : ∀ a ∈ as, g (f a) = .ok a) : (as.map f).mapM g = .ok as := by
  induction as with
  | nil => rfl
  | cons a as ih =>
    have hrest := ih fun b hb => h b (List.mem_cons_of_mem _ hb)
    rw [List.map_cons, List.mapM_cons, h a List.mem_cons_self, hrest]
    rfl

namespace Ty

theorem decodeItems_map {t : Ty} {as : List t.Denote} (h : ∀ a ∈ as, t.decode (t.encode a) = .ok a)
    (whole : Ty) : decodeItems whole t.decode (.array (as.map t.encode)) = .ok as :=
  mapM_map_eq_ok h

theorem decodeMembers_map {t : Ty} {d : Dict t.Denote}
    (h : ∀ e ∈ d.entries, t.decode (t.encode e.2) = .ok e.2) (whole : Ty) :
    decodeMembers whole t.decode (.ofDict (d.map (fun _ a => t.encode a))) = .ok d := by
  have hentries : (d.map (fun _ a => t.encode a)).entries.mapM
      (fun e => do return (e.1, ← t.decode e.2)) = Except.ok d.entries :=
    mapM_map_eq_ok fun e he => by rw [h e he]; rfl
  rw [Value.ofDict, decodeMembers, hentries]
  exact congrArg Except.ok d.ofList_entries

theorem proper_map {t : Ty} {d : Dict t.Denote} (h : ∀ e ∈ d.entries, (t.encode e.2).Proper) :
    (Value.ofDict (d.map (fun _ a => t.encode a))).Proper := by
  refine .object (d.map _).ascending fun e he => ?_
  obtain ⟨e', he', rfl⟩ := List.mem_map.1 he
  exact h e' he'

/-- Writing gives a proper value. -/
theorem Portable.proper_encode {t : Ty} (ht : t.Portable) {a : t.Denote} (ha : t.Writable a) :
    (t.encode a).Proper := by
  induction ht with
  | bool => exact .bool a
  | int w =>
    exact .integer (Int.le_trans (least_ge w) a.least_le) (Int.le_trans a.le_greatest (greatest_le w))
  | f32 =>
    have hwide := (Binary.convert_convert FloatFormat.within_double ha).1
    rw [encode, Value.ofBinary64_of_isFinite hwide]
    exact .float hwide
  | f64 =>
    rw [encode, Value.ofBinary64_of_isFinite ha]
    exact .float ha
  | string => exact .string a
  | value => exact ha
  | list _ ih =>
    refine .array fun v hv => ?_
    obtain ⟨b, hb, rfl⟩ := List.mem_map.1 hv
    exact ih (ha b hb)
  | hashMap _ ih => exact proper_map fun e he => ih (ha e he)
  | treeMap _ ih => exact proper_map fun e he => ih (ha e he)
  | option _ _ ih =>
    cases a with
    | none => exact .null
    | some b => exact ih (ha b rfl)

/-- Reading undoes writing. -/
theorem Portable.decode_encode {t : Ty} (ht : t.Portable) {a : t.Denote} (ha : t.Writable a) :
    t.decode (t.encode a) = .ok a := by
  induction ht with
  | bool | string | value => rfl
  | int w => exact congrArg Except.ok (Word.wrap_val a)
  | f32 =>
    obtain ⟨hwide, hback⟩ := Binary.convert_convert FloatFormat.within_double ha
    rw [encode, Value.ofBinary64_of_isFinite hwide]
    exact congrArg Except.ok hback
  | f64 => rw [encode, Value.ofBinary64_of_isFinite ha]; rfl
  | list _ ih => exact decodeItems_map (fun b hb => ih (ha b hb)) _
  | hashMap _ ih => exact decodeMembers_map (fun e he => ih (ha e he)) _
  | treeMap _ ih => exact decodeMembers_map (fun e he => ih (ha e he)) _
  | @option t _ hnull ih =>
    cases a with
    | none => rfl
    | some b =>
      have hread := ih (ha b rfl)
      have hne := hnull b (ha b rfl)
      rw [encode, Value.ofOption, decode, hread]
      · rfl
      · exact hne

/-- No type that reads texts is written as one. -/
theorem Portable.encode_ne_string {t : Ty} (ht : t.Portable) (hreads : t.coarse.readsText = true)
    (a : t.Denote) (s : String) : t.encode a ≠ .string s := by
  induction ht with
  | bool | int => exact fun h => by cases h
  | f32 | f64 =>
    rw [encode, Value.ofBinary64]
    split
    · exact fun h => by cases h
    · exact fun h => by cases h
  | option _ _ ih =>
    cases a with
    | none => exact fun h => by cases h
    | some b => exact ih hreads b
  | _ => cases hreads

end Ty

namespace Converters

/-- No converters, or just the two built-in ones. -/
def Stock (cs : Converters) : Prop := cs = .empty ∨ cs = (install .empty).value

theorem parseText_of_not_readsText {c : TypeClass} (h : c.readsText = false) (s : String) :
    parseText c s = pure (.string s) := by rw [parseText, h]; rfl

theorem coerce_text {t : Ty} (h : t.coarse.readsText = false) (s : String) :
    coerce t (.string s) = pure (t.decode (.string s)) := by
  rw [coerce, parseText_of_not_readsText h]
  rfl

/-- Without converters a written content is read as it was written. -/
theorem coerce_encode {t : Ty} (ht : t.Portable) (a : t.Denote) :
    (coerce t (t.encode a)).value = t.decode (t.encode a) := by
  cases he : t.encode a with
  | string s =>
    have hkept : t.coarse.readsText = false :=
      Bool.eq_false_iff.2 fun hreads => ht.encode_ne_string hreads a s he
    rw [coerce_text hkept]
    rfl
  | _ => rfl

/-- The built-in converters leave written content as it is. -/
theorem attempt_encode {cs : Converters} (hcs : cs.Stock) {t : Ty} (ht : t.Portable)
    (a : t.Denote) :
    (cs.attempt t (t.encode a)).value = none ∨ (cs.attempt t (t.encode a)).value = some a := by
  rcases hcs with rfl | rfl
  · exact .inl rfl
  · cases ht with
    | string => exact .inr rfl
    | _ => exact .inl rfl

theorem convert_encode {cs : Converters} (hcs : cs.Stock) {t : Ty} (ht : t.Portable)
    {a : t.Denote} (ha : t.Writable a) : (cs.convert t (t.encode a)).value = .ok a := by
  rw [convert, Logged.value_bind]
  rcases attempt_encode hcs ht a with hnone | hsome
  · rw [hnone]
    exact (coerce_encode ht a).trans (ht.decode_encode ha)
  · rw [hsome]
    rfl

end Converters

def Operation.identity {σ : Type} (t : Ty) : Operation σ where
  params := [t]
  returns := .typed t
  run as := pure as.1

/-- A binding whose only parameter is not injected has one slot, for an argument. -/
theorem Binding.slots_of_single {σ : Type} {b : Binding σ} {t : Ty} (hparams : b.params = [t])
    (hfree : b.injectedCount = 0) : b.slots = [(t, false)] := by
  have hmarks : b.marks.length = 1 := b.marks_length.trans (congrArg List.length hparams)
  obtain ⟨m, hm⟩ := List.length_eq_one_iff.1 hmarks
  rw [slots, hparams, hm]
  rw [injectedCount, hm] at hfree
  cases m with
  | false => rfl
  | true => cases hfree

/-- Content of a portable type is written as one proper value, and that value is converted back to
the very content, by no converters and by the built-in ones alike. So a function that gives back
its argument answers a call that its filters let pass with the value it was sent. -/
theorem portable_round_trip {σ : Type} {t : Ty} (ht : t.Portable) {a : t.Denote}
    (ha : t.Writable a) {cs : Converters} (hcs : cs.Stock) :
    (Returns.typed t).intoValues a = .ok [t.encode a] ∧ (t.encode a).Proper ∧
    (cs.convert t (t.encode a)).value = .ok a ∧
    ∀ b : Binding σ, b.callable.operation? = some (.identity t) → b.injectedCount = 0 →
      ∀ call is s s₁, ChainRun b.outline b.filters (b.merged call) s true is s₁ →
        (invoke b cs call [t.encode a]).result s = (.ok (t.encode a), s₁) := by
  have hback := Converters.convert_encode hcs ht ha
  refine ⟨rfl, ht.proper_encode ha, hback, fun b hop hfree call is s s₁ hc => ?_⟩
  have hassemble : b.assemble is [t.encode a] = .ok [.supplied (t.encode a)] := by
    rw [Binding.assemble, Binding.slots_of_single (Callable.params_of_operation hop) hfree]
    rfl
  have hfits : Fits cs (Operation.identity t : Operation σ).params [.supplied (t.encode a)]
      (a, ()) := fits_cons (.supplied hback) (fits_nil cs)
  exact (Follows.ran hc hassemble hfits).result hop

def gaugeTy : Ty := .hashMap (.list (.option .f32))

/-- A reading of the least size below zero, and a missing one. -/
def gaugeReadings : gaugeTy.Denote := .ofList [("east", [some ⟨true, 1, by decide⟩, none])]

/-- A registry with the built-in converters and a function that gives back readings. -/
def gaugeRegistry : Registry Unit :=
  (Registry.fresh.value.exposeFunction (.identity gaugeTy)).value

/-- The readings come back as they were sent. -/
theorem gauge_round_trip : ∃ b, gaugeRegistry.lookup ⟨"main", "f"⟩ = some b ∧
    (gaugeRegistry.converters.convert gaugeTy (gaugeTy.encode gaugeReadings)).value =
      .ok gaugeReadings ∧
    (invoke b gaugeRegistry.converters .empty [gaugeTy.encode gaugeReadings]).result () =
      (.ok (gaugeTy.encode gaugeReadings), ()) := by
  obtain ⟨b, hb⟩ : ∃ b, gaugeRegistry.lookup ⟨"main", "f"⟩ = some b := ⟨_, rfl⟩
  have hportable : gaugeTy.Portable := .hashMap (.list (.option .f32 fun x hx => by
    rw [Ty.encode, Value.ofBinary64_of_isFinite
      (Binary.convert_convert FloatFormat.within_double hx).1]
    exact fun h => by cases h))
  have hwritable : gaugeTy.Writable gaugeReadings := by
    intro e he r hr x hx
    obtain rfl := List.mem_singleton.1 he
    rcases List.mem_cons.1 hr with rfl | hr
    · cases hx
      rfl
    · rw [List.mem_singleton.1 hr] at hx
      cases hx
  have hstock : gaugeRegistry.converters.Stock := .inr rfl
  have hc : ChainRun b.outline b.filters (b.merged .empty) () true (b.merged .empty) () := by
    cases hb
    exact .done _ _
  have htrip := portable_round_trip (σ := Unit) hportable hwritable hstock
  refine ⟨b, hb, htrip.2.2.1, htrip.2.2.2 b ?_ ?_ .empty _ () () hc⟩
  · cases hb
    rfl
  · cases hb
    rfl

end BindingRegistry
