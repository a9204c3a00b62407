import Mathlib.Data.List.Forall2
import BindingRegistry.Proofs.Param.IntegerText
import BindingRegistry.Proofs.Param.RoundTrip

/-!
Lists, maps and options read part by part. A value is read as a list or a map if
each of its parts is read as the item, and what is read has exactly those parts,
by index or by key. If some part is refused, the first of them in order decides
the error, and in it again the first, down to where the value of one part does
not fit its type. Below the top there is nothing but this: no converter is asked
and no text is read as a number.
-/
namespace BindingRegistry

/-- What was read has a part wherever the value has one, read from it, and none elsewhere. -/
def ReadEach (reads : Value → α → Prop) (parts : κ → Option Value) (got : κ → Option α) : Prop :=
  ∀ k, Option.Rel reads (parts k) (got k)

/-- Some part is refused and all before it are read. -/
def RefusedFirst [LT κ] (readable refused : Value → Prop) (parts : κ → Option Value) : Prop :=
  ∃ k v, parts k = some v ∧ refused v ∧ ∀ k' v', k' < k → parts k' = some v' → readable v'

namespace Value

/-- The element of an array at an index; nothing for other kinds. -/
def item? (v : Value) (i : Nat) : Option Value :=
  match v with
  | array items => items[i]?
  | _ => none

theorem Proper.item {v w : Value} (hv : v.Proper) {i : Nat} (hw : v.item? i = some w) :
    w.Proper := by
  cases hv with
  | array hitems => exact hitems w (List.mem_of_getElem? hw)
  | _ => cases hw

theorem Proper.member {v w : Value} (hv : v.Proper) {k : String} (hw : v.member? k = some w) :
    w.Proper := by
  cases hv with
  | object h hentries => exact hentries (k, w) ((Dict.findIn?_eq_some_iff h).1 hw)
  | _ => cases hw

end Value

namespace Ty

/-- What a value is read as, by the structure of the type. Types without parts are read at once. -/
def Reads : (t : Ty) → Value → t.Denote → Prop
  | list t, v, as => v.kind = .array ∧ ReadEach t.Reads v.item? (as[·]?)
  | hashMap t, v, d => v.kind = .map ∧ ReadEach t.Reads v.member? d.get?
  | treeMap t, v, d => v.kind = .map ∧ ReadEach t.Reads v.member? d.get?
  | option t, v, a => v = .null ∧ a = none ∨ v ≠ .null ∧ ∃ b, a = some b ∧ t.Reads v b
  | t, v, a => t.decode v = .ok a

/-- Why a value is refused: it is not of the kind of a collection, which is named, or its first
part that is refused is so for the reason. -/
def Refuses : (t : Ty) → Value → ConvertError → Prop
  | list t, v, e => v.kind ≠ .array ∧ e = .incompatible v.kind (list t) ∨
      v.kind = .array ∧ RefusedFirst (fun w => ∃ a, t.Reads w a) (t.Refuses · e) v.item?
  | hashMap t, v, e => v.kind ≠ .map ∧ e = .incompatible v.kind (hashMap t) ∨
      v.kind = .map ∧ RefusedFirst (fun w => ∃ a, t.Reads w a) (t.Refuses · e) v.member?
  | treeMap t, v, e => v.kind ≠ .map ∧ e = .incompatible v.kind (treeMap t) ∨
      v.kind = .map ∧ RefusedFirst (fun w => ∃ a, t.Reads w a) (t.Refuses · e) v.member?
  | option t, v, e => v ≠ .null ∧ t.Refuses v e
  | t, v, e => t.decode v = .error e

end Ty

theorem ReadEach.read {reads : Value → α → Prop} {parts : κ → Option Value} {got : κ → Option α}
    (h : ReadEach reads parts got) {k : κ} {v : Value} (hv : parts k = some v) :
    ∃ a, reads v a := by
  have hk := h k
  rw [hv] at hk
  cases hg : got k with
  | none => rw [hg] at hk; cases hk
  | some a => exact ⟨a, Option.rel_some_some.1 (hg ▸ hk)⟩

/-- What was read is all there is to say if each part is read in one way only. -/
theorem ReadEach.unique {reads : Value → α → Prop} {parts : κ → Option Value}
    {got got' : κ → Option α} (h : ReadEach reads parts got) (h' : ReadEach reads parts got')
    (hone : ∀ v a b, reads v a → reads v b → a = b) (k : κ) : got k = got' k := by
  have hk := h k
  have hk' := h' k
  generalize parts k = part, got k = a, got' k = b at hk hk'
  cases hk with
  | none => cases hk'; rfl
  | some ha => cases hk' with | some hb => rw [hone _ _ _ ha hb]

theorem ReadEach.imp {reads reads' : Value → α → Prop} {parts : κ → Option Value}
    {got : κ → Option α} (h : ReadEach reads parts got)
    (himp : ∀ k v, parts k = some v → ∀ a, reads v a → reads' v a) :
    ReadEach reads' parts got := by
  intro k
  have hk := h k
  have hpart := himp k
  generalize parts k = part, got k = a at hk hpart
  cases hk with
  | none => exact .none
  | some ha => exact .some (hpart _ rfl _ ha)

theorem readEach_congr {reads reads' : Value → α → Prop} {parts : κ → Option Value}
    (h : ∀ k v, parts k = some v → ∀ a, reads v a ↔ reads' v a) (got : κ → Option α) :
    ReadEach reads parts got ↔ ReadEach reads' parts got :=
  ⟨fun hgot => hgot.imp fun k v hv a => (h k v hv a).1,
    fun hgot => hgot.imp fun k v hv a => (h k v hv a).2⟩

theorem RefusedFirst.imp [LT κ] {readable readable' refused refused' : Value → Prop}
    {parts : κ → Option Value} (h : RefusedFirst readable refused parts)
    (hread : ∀ k v, parts k = some v → readable v → readable' v)
    (hrefused : ∀ k v, parts k = some v → refused v → refused' v) :
    RefusedFirst readable' refused' parts := by
  obtain ⟨k, v, hv, hbad, hbefore⟩ := h
  exact ⟨k, v, hv, hrefused k v hv hbad,
    fun k' v' hlt hv' => hread k' v' hv' (hbefore k' v' hlt hv')⟩

theorem refusedFirst_congr [LT κ] {readable readable' refused refused' : Value → Prop}
    {parts : κ → Option Value} (hread : ∀ k v, parts k = some v → (readable v ↔ readable' v))
    (hrefused : ∀ k v, parts k = some v → (refused v ↔ refused' v)) :
    RefusedFirst readable refused parts ↔ RefusedFirst readable' refused' parts :=
  ⟨fun h => h.imp (fun k v hv => (hread k v hv).1) fun k v hv => (hrefused k v hv).1,
    fun h => h.imp (fun k v hv => (hread k v hv).2) fun k v hv => (hrefused k v hv).2⟩

section Items

variable {f : α → Except ε β} {as : List α}

theorem mapM_cons_eq_ok_iff {a : α} {bs : List β} : (a :: as).mapM f = .ok bs ↔
    ∃ b bs', f a = .ok b ∧ as.mapM f = .ok bs' ∧ bs = b :: bs' := by
  rw [List.mapM_cons]
  cases f a with
  | error e => simp [bind, Except.bind]
  | ok b => cases as.mapM f <;> simp [bind, Except.bind, pure, Except.pure, eq_comm]

theorem mapM_cons_eq_error_iff {a : α} {e : ε} : (a :: as).mapM f = .error e ↔
    f a = .error e ∨ (∃ b, f a = .ok b) ∧ as.mapM f = .error e := by
  rw [List.mapM_cons]
  cases f a with
  | error e' => simp [bind, Except.bind]
  | ok b => cases as.mapM f <;> simp [bind, Except.bind, pure, Except.pure]

/-- Items are taken in order, each for itself. -/
theorem mapM_eq_ok_iff {bs : List β} :
    as.mapM f = .ok bs ↔ List.Forall₂ (fun a b => f a = .ok b) as bs := by
  induction as generalizing bs with
  | nil =>
    rw [List.forall₂_nil_left_iff]
    exact ⟨fun h => (Except.ok.inj h).symm, fun h => congrArg Except.ok h.symm⟩
  | cons a as ih => simp only [mapM_cons_eq_ok_iff, List.forall₂_cons_left_iff, ih]

/-- The first item that is refused ends the taking with its error. -/
theorem mapM_eq_error_iff {e : ε} : as.mapM f = .error e ↔
    ∃ (i : Nat) (a : α), as[i]? = some a ∧ f a = .error e ∧
      ∀ (j : Nat) (b : α), j < i → as[j]? = some b → ∃ c, f b = .ok c := by
  induction as with
  | nil => simp [pure, Except.pure]
  | cons a as ih =>
    rw [mapM_cons_eq_error_iff, ih]
    constructor
    · rintro (hbad | ⟨hread, i, a', ha', hbad, hbefore⟩)
      · exact ⟨0, a, rfl, hbad, fun j _ hlt => absurd hlt (Nat.not_lt_zero j)⟩
      · refine ⟨i + 1, a', ha', hbad, fun j c hlt hc => ?_⟩
        cases j with
        | zero =>
          cases hc
          exact hread
        | succ j => exact hbefore j c (Nat.lt_of_succ_lt_succ hlt) hc
    · rintro ⟨i, a', ha', hbad, hbefore⟩
      cases i with
      | zero =>
        cases ha'
        exact .inl hbad
      | succ i =>
        exact .inr ⟨hbefore 0 a (Nat.succ_pos i) rfl, i, a', ha', hbad,
          fun j c hlt hc => hbefore (j + 1) c (Nat.succ_lt_succ hlt) hc⟩

/-- Elements in step, told by their index. -/
theorem forall₂_iff_getElem? {r : α → β → Prop} {bs : List β} :
    List.Forall₂ r as bs ↔ ∀ i : Nat, Option.Rel r as[i]? bs[i]? := by
  constructor
  · intro h
    induction h with
    | nil => exact fun _ => .none
    | cons hab _ ih =>
      intro i
      cases i with
      | zero => exact .some hab
      | succ i => exact ih i
  · intro h
    induction as generalizing bs with
    | nil =>
      cases bs with
      | nil => exact .nil
      | cons b bs => cases h 0
    | cons a as ih =>
      cases bs with
      | nil => cases h 0
      | cons b bs => exact .cons (Option.rel_some_some.1 (h 0)) (ih fun i => h (i + 1))

end Items

section Entries

variable {entries : List (String × α)}

/-- In ascending entries the places are in the order of the keys. -/
theorem Ascending.lt_iff (h : Ascending entries) {i j : Nat} {e e' : String × α}
    (he : entries[i]? = some e) (he' : entries[j]? = some e') : j < i ↔ e'.1 < e.1 := by
  have hordered := List.pairwise_iff_getElem.1 h
  obtain ⟨hi, rfl⟩ := List.getElem?_eq_some_iff.1 he
  obtain ⟨hj, rfl⟩ := List.getElem?_eq_some_iff.1 he'
  refine ⟨hordered j i hj hi, fun hlt => ?_⟩
  rcases Nat.lt_trichotomy j i with hji | rfl | hij
  · exact hji
  · exact absurd hlt (String.lt_irrefl _)
  · exact absurd (hordered i j hi hj hij) (String.lt_asymm hlt)

theorem Dict.findIn?_eq_some_iff_getElem? (h : Ascending entries) {k : String} {v : α} :
    findIn? k entries = some v ↔ ∃ i : Nat, entries[i]? = some (k, v) := by
  rw [findIn?_eq_some_iff h, List.mem_iff_getElem?]

/-- Entries with the same keys in the same places have related values under every key. -/
theorem Dict.rel_findIn? {r : α → β → Prop} {entries' : List (String × β)}
    (h : List.Forall₂ (fun e e' => e.1 = e'.1 ∧ r e.2 e'.2) entries entries') (k : String) :
    Option.Rel r (findIn? k entries) (findIn? k entries') := by
  induction h with
  | nil => exact .none
  | @cons e e' _ _ he _ ih =>
    obtain ⟨hkey, hvalue⟩ := he
    rw [findIn?, findIn?, ← hkey]
    split
    · exact .some hvalue
    · exact ih

/-- Entries with the keys of ascending ones are a map of their own. -/
theorem Ascending.of_forall₂ {r : α → β → Prop} {entries' : List (String × β)}
    (h : Ascending entries)
    (hsame : List.Forall₂ (fun e e' => e.1 = e'.1 ∧ r e.2 e'.2) entries entries') :
    Ascending entries' := by
  have hkeys : entries.map (·.1) = entries'.map (·.1) :=
    List.forall₂_eq_eq_eq ▸ List.forall₂_map_left_iff.2 (List.forall₂_map_right_iff.2
      (hsame.imp fun _ _ he => he.1))
  have hordered : (entries'.map (·.1)).Pairwise (· < ·) := hkeys ▸ List.pairwise_map.2 h
  exact List.pairwise_map.1 hordered

end Entries

namespace Ty

variable {whole : Ty} {item : Value → Except ConvertError α}

theorem decodeItems_eq_ok_iff {v : Value} {as : List α} : decodeItems whole item v = .ok as ↔
    v.kind = .array ∧ ReadEach (fun w a => item w = .ok a) v.item? (as[·]?) := by
  cases v with
  | array items =>
    rw [decodeItems, mapM_eq_ok_iff, forall₂_iff_getElem?]
    exact ⟨fun h => ⟨rfl, h⟩, fun h => h.2⟩
  | _ => exact ⟨nofun, nofun⟩

theorem decodeItems_eq_error_iff {v : Value} {e : ConvertError} :
    decodeItems whole item v = .error e ↔ v.kind ≠ .array ∧ e = .incompatible v.kind whole ∨
      v.kind = .array ∧
        RefusedFirst (fun w => ∃ a, item w = .ok a) (fun w => item w = .error e) v.item? := by
  cases v with
  | array items =>
    rw [decodeItems, mapM_eq_error_iff]
    simp [Value.kind, RefusedFirst, Value.item?]
  | _ => simp [decodeItems, incompatible, Value.kind, eq_comm]

section Members

variable {entries : List (String × Value)}

theorem member_eq_ok_iff {e : String × Value} {e' : String × α} :
    (do return (e.1, ← item e.2) : Except ConvertError (String × α)) = .ok e' ↔
      e.1 = e'.1 ∧ item e.2 = .ok e'.2 := by
  cases item e.2 <;> simp [bind, Except.bind, pure, Except.pure, Prod.ext_iff]

theorem member_eq_error_iff {e : String × Value} {error : ConvertError} :
    (do return (e.1, ← item e.2) : Except ConvertError (String × α)) = .error error ↔
      item e.2 = .error error := by
  cases item e.2 <;> simp [bind, Except.bind, pure, Except.pure]

/-- Members that are all read make a map with a part under each of their keys. -/
theorem rel_of_decodeMembers (h : Ascending entries) {d : Dict α}
    (hd : decodeMembers whole item (.object entries) = .ok d) :
    ReadEach (fun w a => item w = .ok a) (Value.object entries).member? d.get? := by
  cases hes : entries.mapM (fun e => do return (e.1, ← item e.2)) with
  | error e => rw [decodeMembers, hes] at hd; cases hd
  | ok es =>
    have hsame : List.Forall₂ (fun e e' => e.1 = e'.1 ∧ item e.2 = .ok e'.2) entries es :=
      (mapM_eq_ok_iff.1 hes).imp fun _ _ => member_eq_ok_iff.1
    have hmap : Dict.ofList es = ⟨es, h.of_forall₂ (r := fun w a => item w = .ok a) hsame⟩ :=
      Dict.ofList_entries ⟨es, _⟩
    rw [decodeMembers, hes] at hd
    cases hd
    intro k
    rw [hmap]
    exact Dict.rel_findIn? hsame k

theorem decodeMembers_eq_error_iff_first (h : Ascending entries) {e : ConvertError} :
    decodeMembers whole item (.object entries) = .error e ↔
      RefusedFirst (fun w => ∃ a, item w = .ok a) (fun w => item w = .error e)
        (Value.object entries).member? := by
  have hmap : decodeMembers whole item (.object entries) = .error e ↔
      entries.mapM (fun e => do return (e.1, ← item e.2)) = .error e := by
    rw [decodeMembers]
    cases entries.mapM (fun e => do return (e.1, ← item e.2)) <;>
      simp [bind, Except.bind, pure, Except.pure]
  rw [hmap, mapM_eq_error_iff]
  constructor
  · rintro ⟨i, ⟨k, v⟩, hi, hbad, hbefore⟩
    refine ⟨k, v, (Dict.findIn?_eq_some_iff_getElem? h).2 ⟨i, hi⟩, member_eq_error_iff.1 hbad,
      fun k' v' hlt hv' => ?_⟩
    obtain ⟨j, hj⟩ := (Dict.findIn?_eq_some_iff_getElem? h).1 hv'
    obtain ⟨c, hc⟩ := hbefore j _ ((h.lt_iff hi hj).2 hlt) hj
    exact ⟨c.2, (member_eq_ok_iff.1 hc).2⟩
  · rintro ⟨k, v, hv, hbad, hbefore⟩
    obtain ⟨i, hi⟩ := (Dict.findIn?_eq_some_iff_getElem? h).1 hv
    refine ⟨i, (k, v), hi, member_eq_error_iff.2 hbad, fun j e' hlt hj => ?_⟩
    obtain ⟨a, ha⟩ := hbefore e'.1 e'.2 ((h.lt_iff hi hj).1 hlt)
      ((Dict.findIn?_eq_some_iff_getElem? h).2 ⟨j, hj⟩)
    exact ⟨(e'.1, a), member_eq_ok_iff.2 ⟨rfl, ha⟩⟩

end Members

theorem decodeMembers_eq_error_iff {v : Value} (hv : v.Proper) {e : ConvertError} :
    decodeMembers whole item v = .error e ↔ v.kind ≠ .map ∧ e = .incompatible v.kind whole ∨
      v.kind = .map ∧
        RefusedFirst (fun w => ∃ a, item w = .ok a) (fun w => item w = .error e) v.member? := by
  cases hv with
  | object h _ =>
    rw [decodeMembers_eq_error_iff_first h]
    exact ⟨fun hfirst => .inr ⟨rfl, hfirst⟩, fun hfirst => (hfirst.resolve_left (·.1 rfl)).2⟩
  | _ => simp [decodeMembers, incompatible, Value.kind, eq_comm]

/-- A map is read exactly if each of its members is, and then nothing else is in it. -/
theorem decodeMembers_eq_ok_iff {v : Value} (hv : v.Proper) {d : Dict α} :
    decodeMembers whole item v = .ok d ↔
      v.kind = .map ∧ ReadEach (fun w a => item w = .ok a) v.member? d.get? := by
  cases hv with
  | object h _ =>
    refine ⟨fun hd => ⟨rfl, rel_of_decodeMembers h hd⟩, fun ⟨_, hrel⟩ => ?_⟩
    cases hd : decodeMembers whole item (.object _) with
    | error e =>
      obtain ⟨k, w, hw, hbad, -⟩ := (decodeMembers_eq_error_iff_first h).1 hd
      obtain ⟨a, ha⟩ := hrel.read hw
      rw [hbad] at ha
      cases ha
    | ok d' =>
      refine congrArg Except.ok (Dict.ext_get? ((rel_of_decodeMembers h hd).unique hrel ?_))
      intro w a b ha hb
      exact Except.ok.inj (ha.symm.trans hb)
  | _ => exact ⟨nofun, nofun⟩

/-- Decoding reads and refuses what the structure of the type says. -/
def ByParts (t : Ty) : Prop := ∀ v : Value, v.Proper →
  (∀ a, t.decode v = .ok a ↔ t.Reads v a) ∧ ∀ e, t.decode v = .error e ↔ t.Refuses v e

theorem ByParts.list {t : Ty} (h : t.ByParts) : (list t).ByParts := by
  intro v hv
  have hreads : ∀ i w, v.item? i = some w → ∀ a, t.decode w = .ok a ↔ t.Reads w a :=
    fun i w hw => (h w (hv.item hw)).1
  refine ⟨fun as => ?_, fun e => ?_⟩
  · exact decodeItems_eq_ok_iff.trans (and_congr_right fun _ => readEach_congr hreads _)
  · refine decodeItems_eq_error_iff.trans (or_congr_right (and_congr_right fun _ => ?_))
    exact refusedFirst_congr (fun i w hw => exists_congr (hreads i w hw))
      (fun i w hw => (h w (hv.item hw)).2 e)

/-- Both kinds of maps are read by their members; only the type they name is their own. -/
theorem ByParts.members {t : Ty} (h : t.ByParts) (whole : Ty) {v : Value} (hv : v.Proper) :
    (∀ d, decodeMembers whole t.decode v = .ok d ↔
      v.kind = .map ∧ ReadEach t.Reads v.member? d.get?) ∧
    ∀ e, decodeMembers whole t.decode v = .error e ↔
      v.kind ≠ .map ∧ e = .incompatible v.kind whole ∨
        v.kind = .map ∧ RefusedFirst (fun w => ∃ a, t.Reads w a) (t.Refuses · e) v.member? := by
  have hreads : ∀ k w, v.member? k = some w → ∀ a, t.decode w = .ok a ↔ t.Reads w a :=
    fun k w hw => (h w (hv.member hw)).1
  refine ⟨fun d => ?_, fun e => ?_⟩
  · exact (decodeMembers_eq_ok_iff hv).trans (and_congr_right fun _ => readEach_congr hreads _)
  · refine (decodeMembers_eq_error_iff hv).trans (or_congr_right (and_congr_right fun _ => ?_))
    exact refusedFirst_congr (fun k w hw => exists_congr (hreads k w hw))
      (fun k w hw => (h w (hv.member hw)).2 e)

theorem some_map_eq_ok_iff {x : Except ConvertError α} {a : Option α} :
    some <$> x = .ok a ↔ ∃ b, a = some b ∧ x = .ok b := by
  cases x <;> simp [Functor.map, Except.map, eq_comm]

theorem some_map_eq_error_iff {x : Except ConvertError α} {e : ConvertError} :
    some <$> x = .error e ↔ x = .error e := by
  cases x <;> simp [Functor.map, Except.map]

theorem decode_option_of_ne_null (t : Ty) {v : Value} (hv : v ≠ .null) :
    (option t).decode v = some <$> t.decode v := by
  rw [decode]
  exact hv

theorem ByParts.option {t : Ty} (h : t.ByParts) : (option t).ByParts := by
  intro v hv
  obtain ⟨hreads, hrefuses⟩ := h v hv
  by_cases hnull : v = .null
  · subst hnull
    exact ⟨fun a => by simp [decode, Reads, eq_comm], fun e => by simp [decode, Refuses]⟩
  · rw [decode_option_of_ne_null t hnull]
    refine ⟨fun a => ?_, fun e => ?_⟩
    · rw [some_map_eq_ok_iff, Reads, or_iff_right fun hn => hnull hn.1, and_iff_right hnull]
      exact exists_congr fun b => and_congr_right fun _ => hreads b
    · rw [some_map_eq_error_iff, Refuses, and_iff_right hnull]
      exact hrefuses e

/-- By induction on the type, every part of a value being proper with it. -/
theorem byParts (t : Ty) : t.ByParts := by
  induction t with
  | list t ih => exact ih.list
  | hashMap t ih => exact fun v hv => ih.members (hashMap t) hv
  | treeMap t ih => exact fun v hv => ih.members (treeMap t) hv
  | option t ih => exact ih.option
  | _ => exact fun v _ => ⟨fun _ => Iff.rfl, fun _ => Iff.rfl⟩

/-- A type that texts are read for refuses them itself; the reading comes before, and only for an
argument as a whole. -/
theorem decode_string {t : Ty} (ht : t.coarse.readsText = true) (s : String) :
    ∃ u, t.decode (.string s) = .error (.incompatible .string u) := by
  induction t with
  | bool => exact ⟨bool, rfl⟩
  | int w => exact ⟨int w, rfl⟩
  | f32 => exact ⟨f32, rfl⟩
  | f64 => exact ⟨f64, rfl⟩
  | option t ih =>
    obtain ⟨u, hu⟩ := ih ht
    refine ⟨u, ?_⟩
    rw [decode_option_of_ne_null t (fun h => by cases h), hu]
    rfl
  | host h =>
    cases h with
    | celsius => exact ⟨f64, rfl⟩
    | picky => exact ⟨i64, rfl⟩
    | _ => cases ht
  | _ => cases ht

end Ty

namespace Converters

/-- Of all converters only that for the type itself is asked. -/
theorem convert_congr {cs cs' : Converters} {t : Ty} (h : cs.get? t = cs'.get? t) (v : Value) :
    cs.convert t v = cs'.convert t v := by
  rw [convert, convert, attempt, attempt, h]

/-- What is no text goes to decoding as it is. -/
theorem coerce_of_kind {v : Value} (hv : v.kind ≠ .string) (t : Ty) :
    coerce t v = pure (t.decode v) := by
  cases v with
  | string s => exact absurd rfl hv
  | _ => rfl

end Converters

/-- Lists, maps and options are read by their parts, at every depth. A value is read as just what
the structure of the type says, and refused for the first reason in it. Both kinds of maps take the
same objects and read them alike. Converters for the types of the parts are not asked, and a text
among the parts is not read as a number: the types that texts are read for refuse it. -/
theorem decode_by_parts (t : Ty) {v : Value} (hv : v.Proper) :
    (∀ a, t.decode v = .ok a ↔ t.Reads v a) ∧
    (∀ e, t.decode v = .error e ↔ t.Refuses v e) ∧
    (∀ d, (Ty.hashMap t).decode v = .ok d ↔ (Ty.treeMap t).decode v = .ok d) ∧
    (v.kind = .map → (Ty.hashMap t).decode v = (Ty.treeMap t).decode v) ∧
    (∀ cs cs' : Converters, cs.get? t = cs'.get? t → cs.convert t v = cs'.convert t v) ∧
    (∀ cs : Converters, cs.get? t = none → v.kind ≠ .string →
      cs.convert t v = pure (t.decode v)) ∧
    (t.coarse.readsText = true → v.kind = .string →
      ∃ u, t.Refuses v (.incompatible .string u)) := by
  obtain ⟨hreads, hrefuses⟩ := t.byParts v hv
  refine ⟨hreads, hrefuses, fun d => ?_, fun hkind => ?_, fun _ _ h => Converters.convert_congr h v,
    fun cs hcs hkind => ?_, fun htext hkind => ?_⟩
  · exact ((Ty.hashMap t).byParts v hv).1 d |>.trans (((Ty.treeMap t).byParts v hv).1 d).symm
  · cases v with
    | object entries => rfl
    | _ => cases hkind
  · rw [Converters.convert_of_none hcs, Converters.coerce_of_kind hkind]
  · cases v with
    | string s =>
      obtain ⟨u, hu⟩ := Ty.decode_string htext s
      exact ⟨u, (hrefuses _).1 hu⟩
    | _ => cases hkind

/-- Gauges by name: east is read, the second reading of north is a text, and west is no list. -/
def gaugesSent : Value := .object [("east", .array [.integer 1, .null]),
  ("north", .array [.integer 2, .string "7", .bool true]), ("west", .integer 3)]

/-- North is refused for its text; west, which is behind it, and the truth value are not reached. -/
theorem gauges_refused :
    gaugesSent.Proper ∧
    (Ty.hashMap (.list (.option .i64))).decode gaugesSent = .error (.incompatible .string .i64) ∧
    (Ty.treeMap (.list (.option .i64))).Refuses gaugesSent (.incompatible .string .i64) := by
  have hwhole {n : Int} (hlow : 0 ≤ n) (hhigh : n ≤ 3) : (Value.integer n).Proper :=
    .integer (Int.le_trans (by decide) hlow) (Int.le_trans hhigh (by decide))
  have hproper : gaugesSent.Proper := by
    refine .object (by unfold Ascending; decide) ?_
    simp only [List.forall_mem_cons]
    refine ⟨.array ?_, .array ?_, hwhole (by decide) (by decide), List.forall_mem_nil _⟩
    · simp only [List.forall_mem_cons]
      exact ⟨hwhole (by decide) (by decide), .null, List.forall_mem_nil _⟩
    · simp only [List.forall_mem_cons]
      exact ⟨hwhole (by decide) (by decide), .string "7", .bool true, List.forall_mem_nil _⟩
  have hrefused : (Ty.treeMap (.list (.option .i64))).decode gaugesSent =
      .error (.incompatible .string .i64) := rfl
  exact ⟨hproper, ((decode_by_parts (.list (.option .i64)) hproper).2.2.2.1 rfl).trans hrefused,
    ((decode_by_parts (.treeMap (.list (.option .i64))) hproper).2.1 _).1 hrefused⟩

end BindingRegistry
