import BindingRegistry.TypeMap

/-!
The algebra of merging. A map holds under each type what the last edit of the
type left there, every entry is found under its own type, and two maps with the
same types in the same order and the same entries are one map. Merging keeps of
each type the entry of the last map that has one, so it can be bracketed in any
way, and in which order the entries of a map are gone through makes no
difference.
-/
namespace BindingRegistry.TypeMap

variable {β : Ty → Type u} {m n : TypeMap β}

theorem findKeyed?_eraseKeyed (t t' : Ty) (entries : List (Keyed β)) :
    findKeyed? t' (eraseKeyed t entries) = if t = t' then none else findKeyed? t' entries := by
  induction entries with
  | nil => simp [eraseKeyed, findKeyed?]
  | cons e rest ih =>
    have hstep : eraseKeyed t (e :: rest) =
        if e.1 ≠ t then e :: eraseKeyed t rest else eraseKeyed t rest := by
      simp [eraseKeyed, List.filter_cons]
    rw [hstep]
    by_cases he : e.1 = t
    · subst he
      rw [if_neg (fun h => h rfl), ih, findKeyed?]
      split
      · rfl
      · rfl
    · rw [if_pos he, findKeyed?, ih, findKeyed?]
      by_cases ht : e.1 = t'
      · rw [dif_pos ht, dif_pos ht, if_neg (fun h => he (ht.trans h.symm))]
      · rw [dif_neg ht, dif_neg ht]

/-- An erased type has no entry, and the entries of other types stay. -/
theorem get?_erase (m : TypeMap β) (t t' : Ty) :
    (m.erase t).get? t' = if t = t' then none else m.get? t' :=
  findKeyed?_eraseKeyed t t' m.entries

inductive Edit (β : Ty → Type u) where
  | insert (e : Keyed β)
  | erase (t : Ty)
  | extend (n : TypeMap β)

namespace Edit

def apply (m : TypeMap β) : Edit β → TypeMap β
  | insert e => m.insertEntry e
  | erase t => m.erase t
  | extend n => m.extend n

/-- What is held under `t` after an edit, from what was held there before. -/
def held (t : Ty) (before : Option (β t)) : Edit β → Option (β t)
  | insert e => (findKeyed? t [e]).or before
  | erase t' => if t' = t then none else before
  | extend n => (n.get? t).or before

theorem get?_apply (m : TypeMap β) (e : Edit β) (t : Ty) :
    (e.apply m).get? t = e.held t (m.get? t) := by
  cases e with
  | insert e =>
    rw [apply, held, get?_insertEntry, findKeyed?]
    split
    · rfl
    · rfl
  | erase t' => exact m.get?_erase t' t
  | extend n => exact m.get?_extend n t

/-- After any edits a type has what they left under it, each type by itself. -/
theorem get?_foldl_apply (m : TypeMap β) (es : List (Edit β)) (t : Ty) :
    (es.foldl apply m).get? t = es.foldl (held t) (m.get? t) := by
  induction es generalizing m with
  | nil => rfl
  | cons e es ih => rw [List.foldl_cons, List.foldl_cons, ih, get?_apply]

end Edit

theorem findKeyed?_of_mem {e : Keyed β} {entries : List (Keyed β)}
    (hd : (entries.map (·.1)).Nodup) (h : e ∈ entries) : findKeyed? e.1 entries = some e.2 := by
  induction entries with
  | nil => cases h
  | cons e' rest ih =>
    rw [List.map_cons, List.nodup_cons] at hd
    rcases List.mem_cons.1 h with rfl | hmem
    · rw [findKeyed?, dif_pos rfl]
    · have hne : e'.1 ≠ e.1 := fun he => hd.1 (he ▸ List.mem_map_of_mem hmem)
      rw [findKeyed?, dif_neg hne, ih hd.2 hmem]

theorem mem_of_findKeyed? {t : Ty} {b : β t} {entries : List (Keyed β)}
    (h : findKeyed? t entries = some b) : ⟨t, b⟩ ∈ entries := by
  induction entries with
  | nil => cases h
  | cons e rest ih =>
    rw [findKeyed?] at h
    split at h
    · next he =>
      subst he
      cases h
      exact List.mem_cons_self
    · exact List.mem_cons_of_mem e (ih h)

/-- The entries are what is found under the types, no more and no less. -/
theorem mem_entries_iff {e : Keyed β} : e ∈ m.entries ↔ m.get? e.1 = some e.2 :=
  ⟨findKeyed?_of_mem m.distinct, mem_of_findKeyed?⟩

theorem contains_iff {t : Ty} : m.contains t = true ↔ t ∈ m.types := isSome_findKeyed?

/-- Entries that are found under their types are known from these types. -/
theorem filterMap_findKeyed? {entries es : List (Keyed β)}
    (h : ∀ e ∈ es, findKeyed? e.1 entries = some e.2) :
    (es.map (·.1)).filterMap (fun t => (findKeyed? t entries).map fun b => ⟨t, b⟩) = es := by
  induction es with
  | nil => rfl
  | cons e rest ih =>
    have hhead := h e List.mem_cons_self
    have hrest := ih fun e' he' => h e' (List.mem_cons_of_mem e he')
    rw [List.map_cons, List.filterMap_cons, hhead, hrest]
    rfl

/-- Maps with the same types in the same order and the same entries are the same. -/
theorem eq_of_types_eq (htypes : m.types = n.types) (hget : ∀ t, m.get? t = n.get? t) : m = n := by
  have hm : m.types.filterMap (fun t => (m.get? t).map fun b => ⟨t, b⟩) = m.entries :=
    filterMap_findKeyed? fun _ he => findKeyed?_of_mem m.distinct he
  have hn : n.types.filterMap (fun t => (n.get? t).map fun b => ⟨t, b⟩) = n.entries :=
    filterMap_findKeyed? fun _ he => findKeyed?_of_mem n.distinct he
  refine ext_entries ?_
  rw [← hm, ← hn, htypes]
  simp only [hget]

/-- A new type comes last; one that is there keeps its place. -/
theorem keys_insertKeyed (e : Keyed β) (entries : List (Keyed β)) :
    (insertKeyed e entries).map (·.1) =
      if e.1 ∈ entries.map (·.1) then entries.map (·.1) else entries.map (·.1) ++ [e.1] := by
  induction entries with
  | nil => simp [insertKeyed]
  | cons e' rest ih =>
    rw [insertKeyed]
    by_cases he : e'.1 = e.1
    · simp [he]
    · have hmem : e.1 ∈ (e' :: rest).map (·.1) ↔ e.1 ∈ rest.map (·.1) := by
        simp [Ne.symm he]
      rw [if_neg he, List.map_cons, ih]
      by_cases hrest : e.1 ∈ rest.map (·.1)
      · rw [if_pos hrest, if_pos (hmem.2 hrest), List.map_cons]
      · rw [if_neg hrest, if_neg (fun h => hrest (hmem.1 h)), List.map_cons, List.cons_append]

theorem types_insertEntry (m : TypeMap β) (e : Keyed β) :
    (m.insertEntry e).types = if e.1 ∈ m.types then m.types else m.types ++ [e.1] :=
  keys_insertKeyed e m.entries

/-- The types of the entries come behind those of the map, each once. -/
theorem types_insertMany (m : TypeMap β) {es : List (Keyed β)} (h : (es.map (·.1)).Nodup) :
    (m.insertMany es).types = m.types ++ (es.map (·.1)).filter (· ∉ m.types) := by
  induction es generalizing m with
  | nil => exact (List.append_nil _).symm
  | cons e rest ih =>
    rw [List.map_cons, List.nodup_cons] at h
    have hstep : m.insertMany (e :: rest) = (m.insertEntry e).insertMany rest := rfl
    rw [hstep, ih _ h.2, types_insertEntry, List.map_cons, List.filter_cons]
    by_cases he : e.1 ∈ m.types
    · rw [if_pos he, if_neg (by simpa using he)]
    · -- The other new types are not the one just added.
      have hnew : (rest.map (·.1)).filter (· ∉ m.types ++ [e.1]) =
          (rest.map (·.1)).filter (· ∉ m.types) := by
        refine List.filter_congr fun t ht => ?_
        have hne : t ≠ e.1 := fun hte => h.1 (hte ▸ ht)
        simp [hne]
      rw [if_neg he, if_pos (by simpa using he), hnew, List.append_assoc, List.singleton_append]

/-- The types of a map come first, then the new ones of the map it is extended by. -/
theorem types_extend (m n : TypeMap β) :
    (m.extend n).types = m.types ++ n.types.filter (· ∉ m.types) := types_insertMany m n.distinct

theorem mem_types_extend {t : Ty} : t ∈ (m.extend n).types ↔ t ∈ m.types ∨ t ∈ n.types := by
  rw [types_extend, List.mem_append, List.mem_filter, decide_eq_true_eq]
  by_cases h : t ∈ m.types
  · simp [h]
  · simp [h]

theorem extend_assoc (a b c : TypeMap β) : (a.extend b).extend c = a.extend (b.extend c) := by
  refine eq_of_types_eq ?_ fun t => ?_
  · have hlast : c.types.filter (· ∉ (a.extend b).types) =
        (c.types.filter (· ∉ b.types)).filter (· ∉ a.types) := by
      rw [List.filter_filter]
      refine List.filter_congr fun t _ => ?_
      simp [mem_types_extend]
    rw [types_extend (a.extend b) c, hlast, types_extend a b, types_extend a, types_extend b,
      List.filter_append, List.append_assoc]
  · rw [get?_extend, get?_extend, get?_extend, get?_extend, Option.or_assoc]

theorem extend_empty (m : TypeMap β) : m.extend empty = m := rfl

theorem empty_extend (m : TypeMap β) : empty.extend m = m := m.ofList_entries

theorem extend_self (m : TypeMap β) : m.extend m = m := by
  refine eq_of_types_eq ?_ fun t => ?_
  · have hnone : m.types.filter (· ∉ m.types) = [] := by
      rw [List.filter_eq_nil_iff]
      intro t ht hnew
      exact of_decide_eq_true hnew ht
    rw [types_extend, hnone, List.append_nil]
  · rw [get?_extend, Option.or_self]

theorem merge_single (m : TypeMap β) : merge [m] = m := m.empty_extend

theorem merge_pair (m n : TypeMap β) : merge [m, n] = m.extend n := by
  rw [merge, List.foldl_cons, List.foldl_cons, List.foldl_nil, empty_extend]

theorem foldl_extend (m : TypeMap β) (ms : List (TypeMap β)) :
    ms.foldl extend m = m.extend (merge ms) := by
  induction ms generalizing m with
  | nil => exact m.extend_empty.symm
  | cons a ms ih =>
    have hrest : merge (a :: ms) = a.extend (merge ms) := by
      rw [merge, List.foldl_cons, empty_extend, ih]
    rw [List.foldl_cons, ih, hrest, extend_assoc]

/-- Lists of maps can be merged part by part. -/
theorem merge_append (as bs : List (TypeMap β)) :
    merge (as ++ bs) = merge [merge as, merge bs] := by
  have hfold : merge (as ++ bs) = bs.foldl extend (merge as) := List.foldl_append
  rw [hfold, foldl_extend, merge_pair]

/-- Merged maps hold of each type what the last of them that has it holds. -/
theorem get?_merge (ms : List (TypeMap β)) (t : Ty) :
    (merge ms).get? t = ms.reverse.findSome? (·.get? t) := by
  have hfold (m : TypeMap β) :
      (ms.foldl extend m).get? t = (ms.reverse.findSome? (·.get? t)).or (m.get? t) := by
    induction ms generalizing m with
    | nil => rfl
    | cons a ms ih =>
      rw [List.foldl_cons, ih, get?_extend, List.reverse_cons, List.findSome?_append,
        Option.or_assoc]
      cases h : a.get? t with
      | none => simp [h]
      | some b => simp [h]
  exact (hfold empty).trans Option.or_none

/-- In the entries of a map is found what the map holds, in whatever order they are. -/
theorem findKeyed?_of_perm {es : List (Keyed β)} (h : es.Perm n.entries) (t : Ty) :
    findKeyed? t es = n.get? t := by
  have hd : (es.map (·.1)).Nodup := (h.map (·.1)).nodup_iff.2 n.distinct
  cases hn : n.get? t with
  | none =>
    have hnot : t ∉ es.map (·.1) := by
      intro hmem
      have hkey : (n.get? t).isSome = true := isSome_findKeyed?.2 ((h.map (·.1)).mem_iff.1 hmem)
      rw [hn] at hkey
      cases hkey
    exact findKeyed?_of_not_mem hnot
  | some b => exact findKeyed?_of_mem (e := ⟨t, b⟩) hd (h.mem_iff.2 (mem_entries_iff.2 hn))

theorem nodup_entries (m : TypeMap β) : m.entries.Nodup :=
  List.Pairwise.of_map (·.1) (fun _ _ hne he => hne (congrArg _ he)) m.distinct

/-- Maps that hold the same have the same entries, in some order. -/
theorem perm_of_get?_eq (h : ∀ t, m.get? t = n.get? t) : m.entries.Perm n.entries := by
  refine (List.perm_ext_iff_of_nodup m.nodup_entries n.nodup_entries).2 fun e => ?_
  rw [mem_entries_iff, mem_entries_iff, h]

/-- In whatever order the entries of a map are gone through, it holds the same. -/
theorem get?_insertMany_of_perm (m : TypeMap β) {es : List (Keyed β)} (h : es.Perm n.entries)
    (t : Ty) : (m.insertMany es).get? t = (n.get? t).or (m.get? t) := by
  rw [get?_insertMany m ((h.map (·.1)).nodup_iff.2 n.distinct), findKeyed?_of_perm h]

/-- The union of maps made entry by entry is their merge, in whatever order the entries of each map
are gone through. -/
theorem get?_insertMany_flatMap {ps : List (List (Keyed β) × TypeMap β)}
    (h : ∀ p ∈ ps, p.1.Perm p.2.entries) (t : Ty) :
    (ofList (ps.flatMap (·.1))).get? t = (merge (ps.map (·.2))).get? t := by
  have hfold (m m' : TypeMap β) (hm : m.get? t = m'.get? t) :
      (m.insertMany (ps.flatMap (·.1))).get? t = ((ps.map (·.2)).foldl extend m').get? t := by
    induction ps generalizing m m' with
    | nil => exact hm
    | cons p ps ih =>
      rw [List.flatMap_cons, insertMany_append, List.map_cons, List.foldl_cons]
      refine ih (fun q hq => h q (List.mem_cons_of_mem p hq)) _ _ ?_
      rw [get?_insertMany_of_perm m (h p List.mem_cons_self), get?_extend, hm]
  exact hfold empty empty rfl

end BindingRegistry.TypeMap
