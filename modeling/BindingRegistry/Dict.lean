/-!
Finite maps from text keys, kept in ascending byte order of the keys.
The entries are a list whose keys strictly increase, so every map has one
form: two maps with the same lookups are equal, and whatever is read off a
map in order does not depend on how the map was built.
-/
namespace BindingRegistry

def Ascending (entries : List (String × α)) : Prop :=
  entries.Pairwise (fun a b => a.1 < b.1)

structure Dict (α : Type u) where
  entries : List (String × α)
  ascending : Ascending entries

namespace Dict

def findIn? (k : String) : List (String × α) → Option α
  | [] => none
  | (k', v) :: rest => if k = k' then some v else findIn? k rest

/-- Puts `v` under `k`, replacing an earlier entry or at its place in the order. -/
def insertEntry (k : String) (v : α) : List (String × α) → List (String × α)
  | [] => [(k, v)]
  | (k', v') :: rest =>
    if k = k' then (k, v) :: rest
    else if k < k' then (k, v) :: (k', v') :: rest
    else (k', v') :: insertEntry k v rest

def eraseEntry (k : String) (entries : List (String × α)) : List (String × α) :=
  entries.filter (fun e => e.1 ≠ k)

theorem mem_insertEntry {k : String} {v : α} {e : String × α} {entries : List (String × α)}
    (h : e ∈ insertEntry k v entries) : e = (k, v) ∨ e ∈ entries := by
  induction entries with
  | nil => simpa [insertEntry] using h
  | cons x rest ih =>
    obtain ⟨k', v'⟩ := x
    simp only [insertEntry] at h
    split at h
    · rcases List.mem_cons.1 h with h | h
      · exact .inl h
      · exact .inr (List.mem_cons_of_mem _ h)
    · split at h
      · rcases List.mem_cons.1 h with h | h
        · exact .inl h
        · exact .inr h
      · rcases List.mem_cons.1 h with h | h
        · exact .inr (h ▸ List.mem_cons_self)
        · rcases ih h with h | h
          · exact .inl h
          · exact .inr (List.mem_cons_of_mem _ h)

theorem ascending_insertEntry (k : String) (v : α) {entries : List (String × α)}
    (h : Ascending entries) : Ascending (insertEntry k v entries) := by
  induction entries with
  | nil => simp [insertEntry, Ascending]
  | cons x rest ih =>
    obtain ⟨k', v'⟩ := x
    have hx : (∀ e ∈ rest, k' < e.1) ∧ Ascending rest := by simpa [Ascending] using h
    simp only [insertEntry]
    split
    · next hk => subst hk; simpa [Ascending] using hx
    · next hk =>
      split
      · next hlt =>
        refine List.pairwise_cons.2 ⟨fun e he => ?_, h⟩
        rcases List.mem_cons.1 he with he | he
        · exact he ▸ hlt
        · exact String.lt_trans hlt (hx.1 e he)
      · next hge =>
        refine List.pairwise_cons.2 ⟨fun e he => ?_, ih hx.2⟩
        rcases mem_insertEntry he with he | he
        · subst he
          exact Std.lt_of_le_of_ne (String.not_lt.1 hge) (Ne.symm hk)
        · exact hx.1 e he

theorem ascending_eraseEntry (k : String) {entries : List (String × α)}
    (h : Ascending entries) : Ascending (eraseEntry k entries) :=
  List.Pairwise.sublist (List.filter_sublist) h

def empty : Dict α := ⟨[], List.Pairwise.nil⟩

instance : EmptyCollection (Dict α) := ⟨empty⟩
instance : Inhabited (Dict α) := ⟨empty⟩

def get? (d : Dict α) (k : String) : Option α := findIn? k d.entries
def contains (d : Dict α) (k : String) : Bool := (d.get? k).isSome
def size (d : Dict α) : Nat := d.entries.length
def isEmpty (d : Dict α) : Bool := d.entries.isEmpty
def keys (d : Dict α) : List String := d.entries.map (·.1)
def values (d : Dict α) : List α := d.entries.map (·.2)
def toList (d : Dict α) : List (String × α) := d.entries

def insert (d : Dict α) (k : String) (v : α) : Dict α :=
  ⟨insertEntry k v d.entries, ascending_insertEntry k v d.ascending⟩

def erase (d : Dict α) (k : String) : Dict α :=
  ⟨eraseEntry k d.entries, ascending_eraseEntry k d.ascending⟩

/-- Entries put in one after the other, so the last one with a key counts. -/
def ofList (entries : List (String × α)) : Dict α :=
  entries.foldl (fun d e => d.insert e.1 e.2) empty

def map (f : String → α → β) (d : Dict α) : Dict β where
  entries := d.entries.map (fun e => (e.1, f e.1 e.2))
  ascending := by
    unfold Ascending
    exact List.pairwise_map.2 d.ascending

@[ext] theorem ext_entries {a b : Dict α} (h : a.entries = b.entries) : a = b := by
  cases a; cases b; cases h; rfl

@[simp] theorem entries_empty : (empty : Dict α).entries = [] := rfl
@[simp] theorem get?_empty (k : String) : (empty : Dict α).get? k = none := rfl

theorem findIn?_insertEntry (k k' : String) (v : α) (entries : List (String × α)) :
    findIn? k (insertEntry k' v entries) = if k = k' then some v else findIn? k entries := by
  induction entries with
  | nil => simp [insertEntry, findIn?]
  | cons x rest ih =>
    obtain ⟨k'', v''⟩ := x
    simp only [insertEntry]
    split
    · next h => subst h; simp only [findIn?]; split <;> rfl
    · next h =>
      split
      · simp only [findIn?]
      · simp only [findIn?, ih]
        split
        · next h' => subst h'; simp [Ne.symm h]
        · rfl

theorem findIn?_eraseEntry (k k' : String) (entries : List (String × α)) :
    findIn? k (eraseEntry k' entries) = if k = k' then none else findIn? k entries := by
  induction entries with
  | nil => simp [eraseEntry, findIn?]
  | cons x rest ih =>
    obtain ⟨k'', v''⟩ := x
    simp only [eraseEntry, List.filter_cons] at ih ⊢
    by_cases h : k'' = k'
    · subst h
      simp only [ne_eq, not_true, decide_false, Bool.false_eq_true, if_false, ih, findIn?]
      split <;> rfl
    · simp only [ne_eq, h, not_false_iff, decide_true, if_true, findIn?, ih]
      split
      · next h' => subst h'; simp [h]
      · rfl

theorem findIn?_map (f : String → α → β) (k : String) (entries : List (String × α)) :
    findIn? k (entries.map (fun e => (e.1, f e.1 e.2))) = (findIn? k entries).map (f k) := by
  induction entries with
  | nil => rfl
  | cons x rest ih =>
    obtain ⟨k', v⟩ := x
    simp only [List.map_cons, findIn?]
    split
    · next h => subst h; rfl
    · exact ih

/-- After an insertion the new value is found under its key and nothing else changes. -/
theorem get?_insert (d : Dict α) (k k' : String) (v : α) :
    (d.insert k' v).get? k = if k = k' then some v else d.get? k :=
  findIn?_insertEntry k k' v d.entries

/-- After a removal nothing is found under the key and nothing else changes. -/
theorem get?_erase (d : Dict α) (k k' : String) :
    (d.erase k').get? k = if k = k' then none else d.get? k :=
  findIn?_eraseEntry k k' d.entries

theorem get?_map (f : String → α → β) (d : Dict α) (k : String) :
    (d.map f).get? k = (d.get? k).map (f k) := findIn?_map f k d.entries

theorem get?_of_isEmpty {d : Dict α} (h : d.isEmpty = true) (k : String) : d.get? k = none := by
  have he : d.entries = [] := List.isEmpty_iff.1 h
  rw [get?, he, findIn?]

theorem findIn?_eq_some_iff {k : String} {v : α} {entries : List (String × α)}
    (h : Ascending entries) : findIn? k entries = some v ↔ (k, v) ∈ entries := by
  induction entries with
  | nil => simp [findIn?]
  | cons x rest ih =>
    obtain ⟨k', v'⟩ := x
    have hx : (∀ e ∈ rest, k' < e.1) ∧ Ascending rest := List.pairwise_cons.1 h
    by_cases hk : k = k'
    · subst hk
      have hrest : (k, v) ∉ rest := fun hm => String.lt_irrefl k (hx.1 _ hm)
      simp [findIn?, hrest, eq_comm]
    · simp [findIn?, hk, ih hx.2]

/-- What is found are the entries. -/
theorem get?_eq_some_iff {d : Dict α} {k : String} {v : α} :
    d.get? k = some v ↔ (k, v) ∈ d.entries := findIn?_eq_some_iff d.ascending

theorem mem_keys {d : Dict α} {k : String} : k ∈ d.keys ↔ (d.get? k).isSome = true := by
  rw [keys, List.mem_map, Option.isSome_iff_exists]
  constructor
  · rintro ⟨⟨k', v⟩, hm, rfl⟩
    exact ⟨v, get?_eq_some_iff.2 hm⟩
  · rintro ⟨v, hv⟩
    exact ⟨(k, v), get?_eq_some_iff.1 hv, rfl⟩

theorem keys_ascending (d : Dict α) : d.keys.Pairwise (· < ·) := List.pairwise_map.2 d.ascending

theorem nodup_keys (d : Dict α) : d.keys.Nodup := by
  refine d.keys_ascending.imp ?_
  rintro k _ hlt rfl
  exact String.lt_irrefl k hlt

theorem isEmpty_insert (d : Dict α) (k : String) (v : α) : (d.insert k v).isEmpty = false := by
  obtain ⟨entries, h⟩ := d
  cases entries with
  | nil => rfl
  | cons x rest =>
    simp only [isEmpty, insert, insertEntry]
    split
    · rfl
    · split
      · rfl
      · rfl

theorem isEmpty_map (f : String → α → β) (d : Dict α) : (d.map f).isEmpty = d.isEmpty := by
  obtain ⟨entries, h⟩ := d
  cases entries with
  | nil => rfl
  | cons x rest => rfl

theorem insertEntry_of_lt {k : String} {v : α} {entries : List (String × α)}
    (h : ∀ e ∈ entries, e.1 < k) : insertEntry k v entries = entries ++ [(k, v)] := by
  induction entries with
  | nil => rfl
  | cons x rest ih =>
    obtain ⟨k', v'⟩ := x
    have hlt : k' < k := h (k', v') List.mem_cons_self
    have hne : k ≠ k' := by
      rintro rfl
      exact String.lt_irrefl k hlt
    rw [insertEntry, if_neg hne, if_neg (String.lt_asymm hlt),
      ih fun e he => h e (List.mem_cons_of_mem _ he), List.cons_append]

theorem entries_foldl_insert {d : Dict α} {es : List (String × α)}
    (h : Ascending (d.entries ++ es)) :
    (es.foldl (fun d e => d.insert e.1 e.2) d).entries = d.entries ++ es := by
  induction es generalizing d with
  | nil => exact (List.append_nil _).symm
  | cons e rest ih =>
    have hlast : (d.insert e.1 e.2).entries = d.entries ++ [e] :=
      insertEntry_of_lt fun e' he' => (List.pairwise_append.1 h).2.2 e' he' e List.mem_cons_self
    have hrest := @ih (d.insert e.1 e.2) (by rw [hlast, List.append_assoc]; exact h)
    rw [hlast] at hrest
    exact hrest.trans (List.append_assoc _ _ _)

/-- A map is made again of its entries. -/
theorem ofList_entries (d : Dict α) : ofList d.entries = d :=
  ext_entries (entries_foldl_insert d.ascending)

/-- Entries in ascending order are known by what is among them. -/
theorem eq_of_mem_iff {es es' : List (String × α)} (h : Ascending es) (h' : Ascending es')
    (hmem : ∀ e, e ∈ es ↔ e ∈ es') : es = es' := by
  have hnodup {es : List (String × α)} (h : Ascending es) : es.Nodup := by
    refine h.imp ?_
    rintro e _ hlt rfl
    exact String.lt_irrefl e.1 hlt
  have hperm : es.Perm es' := (List.perm_ext_iff_of_nodup (hnodup h) (hnodup h')).2 hmem
  exact hperm.eq_of_pairwise (fun _ _ _ _ hab hba => absurd hba (String.lt_asymm hab)) h h'

/-- Maps that agree on some keys have the same entries under them. -/
theorem filter_entries_congr {d d' : Dict α} {p : String → Bool}
    (h : ∀ k, p k = true → d.get? k = d'.get? k) :
    d.entries.filter (fun e => p e.1) = d'.entries.filter (fun e => p e.1) := by
  refine eq_of_mem_iff (d.ascending.filter _) (d'.ascending.filter _) ?_
  rintro ⟨k, v⟩
  simp only [List.mem_filter, ← get?_eq_some_iff]
  by_cases hk : p k = true
  · rw [h k hk]
  · simp [hk]

/-- Maps with the same lookups are the same. -/
theorem ext_get? {d d' : Dict α} (h : ∀ k, d.get? k = d'.get? k) : d = d' := by
  refine ext_entries (eq_of_mem_iff d.ascending d'.ascending fun e => ?_)
  rw [← get?_eq_some_iff, ← get?_eq_some_iff, h]

theorem exists_get?_of_isEmpty_eq_false {d : Dict α} (h : d.isEmpty = false) :
    ∃ k v, d.get? k = some v := by
  obtain ⟨x, hx⟩ := List.exists_mem_of_ne_nil d.entries fun hnil => by
    rw [isEmpty, hnil] at h
    cases h
  exact ⟨x.1, x.2, get?_eq_some_iff.2 hx⟩

end Dict

end BindingRegistry
