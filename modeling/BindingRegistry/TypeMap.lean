import BindingRegistry.Param.Ty

/-!
Finite maps keyed by types, the entry under a type depending on it.
A map holds at most one entry a type. An insertion replaces the entry of its
type in place or adds one at the end, so a union taken entry by entry keeps
the order in which types first appeared, and the later map wins.
-/
namespace BindingRegistry

abbrev Keyed (β : Ty → Type u) := (t : Ty) × β t

structure TypeMap (β : Ty → Type u) where
  entries : List (Keyed β)
  distinct : (entries.map (·.1)).Nodup

namespace TypeMap

variable {β : Ty → Type u}

/-- The entry under the first occurrence of `t`. -/
def findKeyed? (t : Ty) : List (Keyed β) → Option (β t)
  | [] => none
  | ⟨t', b⟩ :: rest => if h : t' = t then some (h ▸ b) else findKeyed? t rest

/-- Replaces the entry of the same type in place, or adds one at the end. -/
def insertKeyed (e : Keyed β) : List (Keyed β) → List (Keyed β)
  | [] => [e]
  | e' :: rest => if e'.1 = e.1 then e :: rest else e' :: insertKeyed e rest

def eraseKeyed (t : Ty) (entries : List (Keyed β)) : List (Keyed β) :=
  entries.filter (fun e => e.1 ≠ t)

theorem mem_keys_insertKeyed {t : Ty} {e : Keyed β} {entries : List (Keyed β)} :
    t ∈ (insertKeyed e entries).map (·.1) ↔ t = e.1 ∨ t ∈ entries.map (·.1) := by
  induction entries with
  | nil => simp [insertKeyed]
  | cons e' rest ih =>
    simp only [insertKeyed]
    split
    · next h => simp [h]
    · simp only [List.map_cons, List.mem_cons, ih]
      exact or_left_comm

theorem distinct_insertKeyed (e : Keyed β) {entries : List (Keyed β)}
    (h : (entries.map (·.1)).Nodup) : ((insertKeyed e entries).map (·.1)).Nodup := by
  induction entries with
  | nil => simp [insertKeyed]
  | cons e' rest ih =>
    have h' : e'.1 ∉ rest.map (·.1) ∧ (rest.map (·.1)).Nodup := by
      simpa only [List.map_cons, List.nodup_cons] using h
    simp only [insertKeyed]
    split
    · next he => simpa only [List.map_cons, List.nodup_cons, ← he] using h'
    · next he =>
      rw [List.map_cons, List.nodup_cons, mem_keys_insertKeyed]
      exact ⟨fun hm => hm.elim he h'.1, ih h'.2⟩

theorem distinct_eraseKeyed (t : Ty) {entries : List (Keyed β)}
    (h : (entries.map (·.1)).Nodup) : ((eraseKeyed t entries).map (·.1)).Nodup :=
  List.Nodup.sublist (List.Sublist.map _ List.filter_sublist) h

def empty : TypeMap β := ⟨[], List.nodup_nil⟩

instance : EmptyCollection (TypeMap β) := ⟨empty⟩
instance : Inhabited (TypeMap β) := ⟨empty⟩

def get? (m : TypeMap β) (t : Ty) : Option (β t) := findKeyed? t m.entries
def contains (m : TypeMap β) (t : Ty) : Bool := (m.get? t).isSome
def size (m : TypeMap β) : Nat := m.entries.length
def isEmpty (m : TypeMap β) : Bool := m.entries.isEmpty
def types (m : TypeMap β) : List Ty := m.entries.map (·.1)

def insertEntry (m : TypeMap β) (e : Keyed β) : TypeMap β :=
  ⟨insertKeyed e m.entries, distinct_insertKeyed e m.distinct⟩

def insert (m : TypeMap β) (t : Ty) (b : β t) : TypeMap β := m.insertEntry ⟨t, b⟩

def erase (m : TypeMap β) (t : Ty) : TypeMap β :=
  ⟨eraseKeyed t m.entries, distinct_eraseKeyed t m.distinct⟩

def insertMany (m : TypeMap β) (es : List (Keyed β)) : TypeMap β := es.foldl insertEntry m

def ofList (es : List (Keyed β)) : TypeMap β := empty.insertMany es

/-- Both maps together; where both have an entry, that of `n` counts. -/
def extend (m n : TypeMap β) : TypeMap β := m.insertMany n.entries

/-- All maps together; later ones win. -/
def merge (ms : List (TypeMap β)) : TypeMap β := ms.foldl extend empty

@[simp] theorem get?_empty (t : Ty) : (empty : TypeMap β).get? t = none := rfl

theorem findKeyed?_insertKeyed_self (e : Keyed β) (entries : List (Keyed β)) :
    findKeyed? e.1 (insertKeyed e entries) = some e.2 := by
  induction entries with
  | nil => simp [insertKeyed, findKeyed?]
  | cons e' rest ih =>
    simp only [insertKeyed]
    split
    · simp [findKeyed?]
    · next h => simp only [findKeyed?, h, dite_false, ih]

theorem findKeyed?_insertKeyed_of_ne {t : Ty} {e : Keyed β} (h : e.1 ≠ t)
    (entries : List (Keyed β)) : findKeyed? t (insertKeyed e entries) = findKeyed? t entries := by
  induction entries with
  | nil => simp [insertKeyed, findKeyed?, h]
  | cons e' rest ih =>
    simp only [insertKeyed]
    split
    · next he => simp [findKeyed?, h, he]
    · simp only [findKeyed?, ih]

theorem findKeyed?_insertKeyed (t : Ty) (e : Keyed β) (entries : List (Keyed β)) :
    findKeyed? t (insertKeyed e entries) =
      if h : e.1 = t then some (h ▸ e.2) else findKeyed? t entries := by
  split
  · next h => subst h; exact findKeyed?_insertKeyed_self e entries
  · next h => exact findKeyed?_insertKeyed_of_ne h entries

/-- The entry just inserted is found under its type, and nothing else changes. -/
theorem get?_insertEntry (m : TypeMap β) (e : Keyed β) (t : Ty) :
    (m.insertEntry e).get? t = if h : e.1 = t then some (h ▸ e.2) else m.get? t :=
  findKeyed?_insertKeyed t e m.entries

/-- The entry just inserted is found. -/
@[simp] theorem get?_insert_self (m : TypeMap β) (t : Ty) (b : β t) :
    (m.insert t b).get? t = some b := findKeyed?_insertKeyed_self ⟨t, b⟩ m.entries

/-- An insertion leaves the entries of other types as they are. -/
theorem get?_insert_of_ne (m : TypeMap β) {t t' : Ty} (b : β t') (h : t' ≠ t) :
    (m.insert t' b).get? t = m.get? t := findKeyed?_insertKeyed_of_ne h m.entries

theorem findKeyed?_of_not_mem {t : Ty} {entries : List (Keyed β)} (h : t ∉ entries.map (·.1)) :
    findKeyed? t entries = none := by
  induction entries with
  | nil => rfl
  | cons e rest ih =>
    rw [List.map_cons, List.mem_cons, not_or] at h
    simp only [findKeyed?, Ne.symm h.1, dite_false, ih h.2]

theorem get?_insertMany (m : TypeMap β) {es : List (Keyed β)} (h : (es.map (·.1)).Nodup) (t : Ty) :
    (m.insertMany es).get? t = (findKeyed? t es).or (m.get? t) := by
  induction es generalizing m with
  | nil => rfl
  | cons e rest ih =>
    rw [List.map_cons, List.nodup_cons] at h
    have hstep : m.insertMany (e :: rest) = (m.insertEntry e).insertMany rest := rfl
    rw [hstep, ih _ h.2, get?_insertEntry, findKeyed?]
    by_cases he : e.1 = t
    · rw [findKeyed?_of_not_mem (he ▸ h.1)]
      simp [he]
    · simp [he]

theorem isSome_findKeyed? {t : Ty} {entries : List (Keyed β)} :
    (findKeyed? t entries).isSome = true ↔ t ∈ entries.map (·.1) := by
  induction entries with
  | nil => simp [findKeyed?]
  | cons e rest ih =>
    simp only [findKeyed?, List.map_cons, List.mem_cons]
    split
    · next h => simp [h]
    · next h => rw [ih, or_iff_right (Ne.symm h)]

theorem findKeyed?_append (t : Ty) (xs ys : List (Keyed β)) :
    findKeyed? t (xs ++ ys) = (findKeyed? t xs).or (findKeyed? t ys) := by
  induction xs with
  | nil => rfl
  | cons e rest ih =>
    simp only [List.cons_append, findKeyed?]
    split
    · rfl
    · exact ih

def findLast? (t : Ty) (es : List (Keyed β)) : Option (β t) := findKeyed? t es.reverse

theorem findLast?_cons (t : Ty) (e : Keyed β) (es : List (Keyed β)) :
    findLast? t (e :: es) = (findLast? t es).or (findKeyed? t [e]) := by
  rw [findLast?, List.reverse_cons, findKeyed?_append, findLast?]

/-- Of entries inserted one after the other, the last of its type counts. -/
theorem get?_insertMany_last (m : TypeMap β) (es : List (Keyed β)) (t : Ty) :
    (m.insertMany es).get? t = (findLast? t es).or (m.get? t) := by
  induction es generalizing m with
  | nil => rfl
  | cons e rest ih =>
    have hstep : m.insertMany (e :: rest) = (m.insertEntry e).insertMany rest := rfl
    rw [hstep, ih, findLast?_cons, Option.or_assoc, get?_insertEntry, findKeyed?]
    congr 1
    split
    · rfl
    · rfl

theorem contains_insertMany (m : TypeMap β) (es : List (Keyed β)) (t : Ty) :
    (m.insertMany es).contains t = true ↔ t ∈ es.map (·.1) ∨ m.contains t = true := by
  rw [contains, get?_insertMany_last, Option.isSome_or, Bool.or_eq_true, findLast?,
    isSome_findKeyed?, List.map_reverse, List.mem_reverse]
  rfl

theorem insertMany_append (m : TypeMap β) (xs ys : List (Keyed β)) :
    m.insertMany (xs ++ ys) = (m.insertMany xs).insertMany ys := List.foldl_append

@[ext] theorem ext_entries {m n : TypeMap β} (h : m.entries = n.entries) : m = n := by
  cases m; cases n; cases h; rfl

theorem insertKeyed_of_not_mem {e : Keyed β} {entries : List (Keyed β)}
    (h : e.1 ∉ entries.map (·.1)) : insertKeyed e entries = entries ++ [e] := by
  induction entries with
  | nil => rfl
  | cons e' rest ih =>
    rw [List.map_cons, List.mem_cons, not_or] at h
    rw [insertKeyed, if_neg (Ne.symm h.1), ih h.2, List.cons_append]

theorem insertKeyed_insertKeyed (e : Keyed β) (entries : List (Keyed β)) :
    insertKeyed e (insertKeyed e entries) = insertKeyed e entries := by
  induction entries with
  | nil => simp [insertKeyed]
  | cons e' rest ih =>
    by_cases h : e'.1 = e.1
    · simp [insertKeyed, h]
    · simp [insertKeyed, h, ih]

/-- An entry put in twice in a row is there once. -/
@[simp] theorem insertEntry_insertEntry (m : TypeMap β) (e : Keyed β) :
    (m.insertEntry e).insertEntry e = m.insertEntry e :=
  ext_entries (insertKeyed_insertKeyed e m.entries)

/-- There is nothing to erase under a type without an entry. -/
theorem erase_of_contains_false {m : TypeMap β} {t : Ty} (h : m.contains t = false) :
    m.erase t = m := by
  refine ext_entries (List.filter_eq_self.2 fun e he => decide_eq_true fun ht => ?_)
  have hmem : (m.get? t).isSome = true :=
    isSome_findKeyed?.2 (ht ▸ List.mem_map_of_mem he)
  rw [contains, hmem] at h
  cases h

theorem entries_insertMany {m : TypeMap β} {es : List (Keyed β)}
    (h : ((m.entries ++ es).map (·.1)).Nodup) :
    (m.insertMany es).entries = m.entries ++ es := by
  induction es generalizing m with
  | nil => exact (List.append_nil _).symm
  | cons e rest ih =>
    have hnew : e.1 ∉ m.entries.map (·.1) := by
      intro hmem
      rw [List.map_append, List.nodup_append] at h
      exact h.2.2 e.1 hmem e.1 (List.mem_map_of_mem List.mem_cons_self) rfl
    have hentries : (m.insertEntry e).entries = m.entries ++ [e] := insertKeyed_of_not_mem hnew
    have hrest := @ih (m.insertEntry e) (by rw [hentries, List.append_assoc]; exact h)
    rw [hentries] at hrest
    exact hrest.trans (List.append_assoc _ _ _)

/-- A map is made again of its entries. -/
theorem ofList_entries (m : TypeMap β) : ofList m.entries = m :=
  ext_entries (entries_insertMany m.distinct)

/-- Of two maps together, the later one counts wherever it has an entry. -/
theorem get?_extend (m n : TypeMap β) (t : Ty) :
    (m.extend n).get? t = (n.get? t).or (m.get? t) := get?_insertMany m n.distinct t

end TypeMap

end BindingRegistry
