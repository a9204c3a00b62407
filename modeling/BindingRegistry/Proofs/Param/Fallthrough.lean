import BindingRegistry.Converters.Builtin
import BindingRegistry.Proofs.Injection.Merging
import BindingRegistry.Proofs.Param.Collections

/-!
What earlier steps leave of the converters, and what a conversion makes of it.
Of everything that was registered, copied over and taken out again, a conversion
sees one entry: the last that was left for exactly its type. If that entry makes
a content of the type, this is the result. Otherwise the value is taken as if
nothing had ever been registered, just as it was sent. Entries for other types,
those of its parts among them, do not matter.
-/
namespace BindingRegistry

/-- A converter from a function whose results have the type by themselves. -/
def Converter.typed (t : Ty) (f : Value → Except Failure t.Denote) : Converter :=
  fun v => (f v).map fun a => ⟨t, a⟩

namespace Converters

inductive History where
  | start
  | register (h : History) (t : Ty) (f : Value → Except Failure t.Denote)
  /-- Registers a converter whose results may be of any type. -/
  | registerAny (h : History) (t : Ty) (c : Converter)
  | extend (h other : History)
  | unregister (h : History) (t : Ty)

namespace History

/-- The converters at the end. -/
def set : History → Converters
  | start => .empty
  | register h t f => (h.set.register t (.typed t f)).value
  | registerAny h t c => (h.set.register t c).value
  | extend h other => h.set.extend other.set
  | unregister h t => h.set.erase t

/-- The entry that the last step about `t` left for it; nothing if that step took it out, or if
there was none. -/
def last? (t : Ty) : History → Option Converter
  | start => none
  | register h t' f => if t' = t then some (.typed t' f) else h.last? t
  | registerAny h t' c => if t' = t then some c else h.last? t
  | extend h other => (other.last? t).or (h.last? t)
  | unregister h t' => if t' = t then none else h.last? t

/-- The steps about `t` alone. -/
def only (t : Ty) : History → History
  | start => start
  | register h t' f => if t' = t then (h.only t).register t' f else h.only t
  | registerAny h t' c => if t' = t then (h.only t).registerAny t' c else h.only t
  | extend h other => (h.only t).extend (other.only t)
  | unregister h t' => if t' = t then (h.only t).unregister t' else h.only t

theorem get?_register (cs : Converters) (t t' : Ty) (c : Converter) :
    (cs.register t' c).value.get? t = if t' = t then some c else cs.get? t := by
  have hinsert := cs.get?_insertEntry ⟨t', c⟩ t
  by_cases h : t' = t
  · subst h
    rw [if_pos rfl]
    exact hinsert.trans (dif_pos rfl)
  · rw [if_neg h]
    exact hinsert.trans (dif_neg h)

/-- What is found under a type is what the last step about it left. -/
theorem get?_set (h : History) (t : Ty) : h.set.get? t = h.last? t := by
  induction h with
  | start => rfl
  | register h t' f ih => rw [set, get?_register, last?, ih]
  | registerAny h t' c ih => rw [set, get?_register, last?, ih]
  | extend h other ih ihother => rw [set, TypeMap.get?_extend, last?, ih, ihother]
  | unregister h t' ih => rw [set, TypeMap.get?_erase, last?, ih]

/-- Steps about other types leave no trace. -/
theorem last?_only (h : History) (t : Ty) : (h.only t).last? t = h.last? t := by
  induction h with
  | start => rfl
  | extend h other ih ihother => rw [only, last?, last?, ih, ihother]
  | register h t' _ ih | registerAny h t' _ ih | unregister h t' ih =>
    rw [only, last?]
    by_cases ht : t' = t
    · rw [if_pos ht, if_pos ht, last?, if_pos ht]
    · rw [if_neg ht, if_neg ht, ih]

end History

/-- The built-in converter for a type, if there is one. -/
def builtIn? : Ty → Option Converter
  | .string => some stringConverter
  | .time => some timeConverter
  | _ => none

theorem get?_install (t : Ty) : (install .empty).value.get? t = builtIn? t := by
  rw [install, Logged.value_bind, History.get?_register, History.get?_register]
  cases t with
  | _ => rfl

section

variable {cs : Converters} {t : Ty} {c : Converter} {v : Value}

/-- A converter that makes a content of the type decides the result. -/
theorem convert_of_made (hc : cs.get? t = some c) {a : t.Denote} (ha : c v = .ok ⟨t, a⟩) :
    cs.convert t v = pure (.ok a) := by
  have hcast : Injected.cast? ⟨t, a⟩ t = some a := dif_pos rfl
  rw [convert, attempt, hc]
  simp only [ha, hcast]
  rfl

/-- A converter that fails, or makes a content of another type, leaves the value to the type. -/
theorem convert_of_not_made (hc : cs.get? t = some c) (hv : ∀ a, c v ≠ .ok ⟨t, a⟩) :
    (cs.convert t v).value = (coerce t v).value := by
  have hnothing : (cs.attempt t v).value = none := by
    rw [attempt, hc]
    cases hmade : c v with
    | error e =>
      simp only [hmade]
      rfl
    | ok made =>
      obtain ⟨u, b⟩ := made
      have hother : u ≠ t := by
        rintro rfl
        exact hv b hmade
      have hcast : Injected.cast? ⟨u, b⟩ t = none := dif_neg hother
      simp only [hmade, hcast]
      rfl
  rw [convert, Logged.value_bind, hnothing]

end

end Converters

open Converters (History)

/-- A conversion depends on the entry that was left last for exactly its type. Histories that end
with the same one convert alike, so all steps about other types, be they types of its parts, could
as well not have been taken. If the entry makes a content of the type, that is the result; if there
is none, or it fails on the value, or makes a content of another type, the value gives what it gives
without any converter, be that a content or an error. -/
theorem convert_by_last_entry (h : History) (t : Ty) (v : Value) :
    (∀ h' : History, h'.last? t = h.last? t → h'.set.convert t v = h.set.convert t v) ∧
    (h.only t).set.convert t v = h.set.convert t v ∧
    (∀ c a, h.last? t = some c → c v = .ok ⟨t, a⟩ → (h.set.convert t v).value = .ok a) ∧
    ((∀ c a, h.last? t = some c → c v ≠ .ok ⟨t, a⟩) →
      (h.set.convert t v).value = (Converters.convert .empty t v).value) := by
  have hsame (h' : History) (hlast : h'.last? t = h.last? t) :
      h'.set.convert t v = h.set.convert t v := by
    refine Converters.convert_congr ?_ v
    rw [h'.get?_set, h.get?_set, hlast]
  refine ⟨hsame, hsame _ (h.last?_only t), fun c a hc ha => ?_, fun hnone => ?_⟩
  · rw [Converters.convert_of_made ((h.get?_set t).trans hc) ha]
    rfl
  · have hempty : Converters.convert .empty t v = Converters.coerce t v :=
      Converters.convert_of_none rfl v
    rw [hempty]
    cases hc : h.last? t with
    | none => rw [Converters.convert_of_none ((h.get?_set t).trans hc)]
    | some c => exact Converters.convert_of_not_made ((h.get?_set t).trans hc) (hnone c · hc)

/-- Converters for whole numbers and for lists of them. That for lists makes a text, and a copied
set has none for lists. -/
def tallyHistory : History :=
  ((History.start.registerAny (.list .i64) fun _ => .ok ⟨.string, "many"⟩).register .i64
    fun _ => .ok (.wrap .i64 99)).extend
      (((History.start.register (.list .i64) fun _ => .ok []).unregister (.list .i64)).register
        .string fun _ => .ok "fixed")

/-- The list is taken as it is, its numbers too, and a number by itself is taken by the converter
for it. -/
theorem tally_kept :
    (tallyHistory.set.convert (.list .i64) (.array [.integer 1, .integer 2])).value =
      .ok [.wrap .i64 1, .wrap .i64 2] ∧
    (tallyHistory.set.convert .i64 (.string "one")).value = .ok (.wrap .i64 99) := by
  have hlist := convert_by_last_entry tallyHistory (.list .i64) (.array [.integer 1, .integer 2])
  have hnumber := convert_by_last_entry tallyHistory .i64 (.string "one")
  refine ⟨(hlist.2.2.2 fun c a hc hmade => ?_).trans rfl, hnumber.2.2.1 _ _ rfl rfl⟩
  obtain rfl : (fun _ => .ok ⟨.string, "many"⟩ : Converter) = c := Option.some.inj hc
  cases hmade

end BindingRegistry
