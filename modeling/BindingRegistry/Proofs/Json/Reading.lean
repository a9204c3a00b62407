import BindingRegistry.Proofs.Json.Leaves

/-!
The reader against the grammar. On the text of a tree it gives the value of the
tree, if it has one and is not too deep, and fails otherwise; and it accepts no
other texts.
-/
namespace BindingRegistry.Json

open Decimal (isDigit ne_of_isDigit)

section

variable (fuel depth : Nat) (b : Blanks) (cs : List Char)

theorem value?_blanks : value? fuel depth (b.chars ++ cs) = value? fuel depth cs := by
  cases fuel <;> simp only [value?, skipSpace_blanks]

theorem items?_skipSpace (acc : List Value) :
    items? fuel depth acc (skipSpace cs) = items? fuel depth acc cs := by
  have hvalue (fuel : Nat) : value? fuel depth (skipSpace cs) = value? fuel depth cs := by
    cases fuel <;> simp only [value?, skipSpace_skipSpace]
  cases fuel <;> simp only [items?, hvalue]

theorem members?_skipSpace (acc : Dict Value) :
    members? fuel depth acc (skipSpace cs) = members? fuel depth acc cs := by
  cases fuel <;> simp only [members?, skipSpace_skipSpace]

end

theorem Ends.blanks {rest : List Char} (h : Ends rest) (b : Blanks) : Ends (b.chars ++ rest) := by
  obtain ⟨cs, blank⟩ := b
  cases cs with
  | nil => exact h
  | cons c cs =>
    rintro d ⟨⟩
    have hspace := blank c List.mem_cons_self
    simp only [isSpace, Bool.or_eq_true, decide_eq_true_eq] at hspace
    rcases hspace with ((rfl | rfl) | rfl) | rfl <;> decide

theorem ends_cons {c : Char} (h : isDigit c = false ∧ c ≠ '.' ∧ isExponentMark c = false)
    (rest : List Char) : Ends (c :: rest) := by
  rintro d ⟨⟩
  exact h

theorem Numeral.exists_cons (n : Numeral) :
    ∃ c cs, n.chars = c :: cs ∧ (c = '-' ∨ isDigit c = true) := by
  rw [Numeral.chars]
  cases n.negative with
  | true => exact ⟨'-', _, rfl, .inl rfl⟩
  | false =>
    obtain ⟨c, cs, hcs, hc⟩ := n.whole.exists_cons
    rw [hcs]
    exact ⟨c, _, rfl, .inr hc⟩

/-- The text of a tree begins with no blank and no bracket that closes. -/
theorem Tree.exists_cons (t : Tree) :
    ∃ c cs, t.chars = c :: cs ∧ isSpace c = false ∧ c ≠ ']' := by
  cases t with
  | null => exact ⟨_, _, rfl, by decide, by decide⟩
  | bool b => cases b <;> exact ⟨_, _, rfl, by decide, by decide⟩
  | string s => exact ⟨_, _, rfl, by decide, by decide⟩
  | emptyArray b => exact ⟨_, _, rfl, by decide, by decide⟩
  | array items => exact ⟨_, _, rfl, by decide, by decide⟩
  | emptyObject b => exact ⟨_, _, rfl, by decide, by decide⟩
  | object members => exact ⟨_, _, rfl, by decide, by decide⟩
  | number n =>
    obtain ⟨c, cs, hcs, hc⟩ := n.exists_cons
    refine ⟨c, cs, hcs, ?_⟩
    rcases hc with rfl | hc
    · decide
    · refine ⟨?_, ne_of_isDigit hc (by decide)⟩
      simp [isSpace, ne_of_isDigit hc (d := ' ') (by decide),
        ne_of_isDigit hc (d := '\n') (by decide), ne_of_isDigit hc (d := '\r') (by decide),
        ne_of_isDigit hc (d := '\t') (by decide)]

theorem Items.skipSpace_ne (items : Items) (rest : List Char) :
    ∀ r, skipSpace (items.chars ++ rest) ≠ ']' :: r := by
  have hfront (b : Blanks) (t : Tree) (cs r : List Char) :
      skipSpace (b.chars ++ (t.chars ++ cs)) ≠ ']' :: r := by
    obtain ⟨c, cs', hcs, hspace, hne⟩ := t.exists_cons
    rw [skipSpace_blanks, hcs, List.cons_append, skipSpace_cons hspace]
    exact fun heq => hne (List.cons.inj heq).1
  intro r
  cases items with
  | last before t after => simpa only [Items.chars, List.append_assoc] using hfront before t _ r
  | more before t after rest =>
    simpa only [Items.chars, List.append_assoc] using hfront before t _ r

theorem Members.skipSpace_ne (members : Members) (rest : List Char) :
    ∀ r, skipSpace (members.chars ++ rest) ≠ '\x7d' :: r := by
  intro r
  cases members with
  | last => simp [Members.chars, quotedChars, skipSpace_cons (c := '"') (by decide)]
  | more => simp [Members.chars, quotedChars, skipSpace_cons (c := '"') (by decide)]

section

variable {fuel depth : Nat} {cs rest : List Char}

theorem value?_bracket (h : ∀ r, skipSpace cs ≠ ']' :: r) :
    value? (fuel + 1) (depth + 1) ('[' :: cs) = items? fuel depth [] cs := by
  rw [← items?_skipSpace]
  simp only [value?, skipSpace_cons (c := '[') (by decide), Char.reduceEq, if_false, if_true]

theorem value?_brace (h : ∀ r, skipSpace cs ≠ '\x7d' :: r) :
    value? (fuel + 1) (depth + 1) ('\x7b' :: cs) = members? fuel depth .empty cs := by
  rw [← members?_skipSpace]
  simp only [value?, skipSpace_cons (c := '\x7b') (by decide), Char.reduceEq, if_false, if_true]

theorem value?_number {c : Char} (h : c = '-' ∨ isDigit c = true) :
    value? (fuel + 1) depth (c :: cs) = number? (c :: cs) := by
  have hne {d : Char} (hminus : '-' ≠ d) (hd : isDigit d = false) : c ≠ d := by
    rcases h with rfl | hc
    · exact hminus
    · exact ne_of_isDigit hc hd
  have hspace : isSpace c = false := by
    simp [isSpace, hne (d := ' ') (by decide) (by decide), hne (d := '\n') (by decide) (by decide),
      hne (d := '\r') (by decide) (by decide), hne (d := '\t') (by decide) (by decide)]
  simp only [value?, skipSpace_cons hspace, hne (d := '"') (by decide) (by decide),
    hne (d := '[') (by decide) (by decide), hne (d := '\x7b') (by decide) (by decide),
    hne (d := 'n') (by decide) (by decide), hne (d := 't') (by decide) (by decide),
    hne (d := 'f') (by decide) (by decide), if_false]

theorem value?_quoted (s : List Piece) :
    value? (fuel + 1) depth (quotedChars s ++ rest) =
      (stringText? s).map fun k => (.string k, rest) := by
  simp only [quotedChars, List.cons_append, List.append_assoc, List.nil_append, value?,
    skipSpace_cons (c := '"') (by decide), if_true]
  have hfuel : (s.flatMap Piece.chars).length <
      (s.flatMap Piece.chars ++ '"' :: rest).length + 1 := by
    rw [List.length_append]
    omega
  rw [stringBody?_chars s [] rest hfuel, stringText?]
  cases stringChars? s <;> rfl

/-- A member is read by its key and what stands behind the colon. -/
theorem members?_key (before behindKey b : Blanks) (key : List Piece) (acc : Dict Value) :
    members? (fuel + 1) depth acc
        (before.chars ++ (quotedChars key ++ (behindKey.chars ++ ':' :: (b.chars ++ cs)))) =
      (stringText? key).bind fun k =>
        match value? fuel depth cs with
        | none => none
        | some (v, rest) =>
          match skipSpace rest with
          | ',' :: rest => members? fuel depth (acc.insert k v) rest
          | '\x7d' :: rest => some (.ofDict (acc.insert k v), rest)
          | _ => none := by
  simp only [quotedChars, List.cons_append, List.append_assoc, List.nil_append, members?,
    skipSpace_blanks, skipSpace_cons (c := '"') (by decide), stringText?]
  rw [stringBody?_chars key [] _ (by rw [List.length_append]; omega)]
  cases stringChars? key with
  | none => rfl
  | some k =>
    simp only [Option.map_some, skipSpace_blanks, skipSpace_cons (c := ':') (by decide),
      value?_blanks, Option.bind_some]
    rfl

theorem value?_deep {c : Char} (h : c = '[' ∨ c = '\x7b') : value? fuel 0 (c :: cs) = none := by
  cases fuel with
  | zero => rfl
  | succ fuel =>
    rcases h with rfl | rfl
    · simp [value?, skipSpace_cons (c := '[') (by decide)]
    · simp [value?, skipSpace_cons (c := '\x7b') (by decide)]

end

theorem exists_fuel {t : Tree} {fuel : Nat} (h : 2 * t.chars.length ≤ fuel) :
    ∃ k, fuel = k + 1 := by
  obtain ⟨c, cs, hcs, -⟩ := t.exists_cons
  rw [hcs, List.length_cons] at h
  exact ⟨fuel - 1, by omega⟩

theorem ends_bracket (b : Blanks) (rest : List Char) : Ends (b.chars ++ ']' :: rest) :=
  (ends_cons (by decide) rest).blanks b

theorem ends_brace (b : Blanks) (rest : List Char) : Ends (b.chars ++ '\x7d' :: rest) :=
  (ends_cons (by decide) rest).blanks b

theorem ends_comma (b : Blanks) (rest : List Char) : Ends (b.chars ++ ',' :: rest) :=
  (ends_cons (by decide) rest).blanks b

mutual

/-- The text of a tree is read as its value if it is not nested deeper than the reader goes. Twice
the length is fuel enough: an item takes a step for itself and one for its value. -/
theorem value?_tree : (t : Tree) → {fuel depth : Nat} → {rest : List Char} →
    2 * t.chars.length ≤ fuel → Ends rest → value? fuel depth (t.chars ++ rest) =
      if t.levels ≤ depth then t.value?.map fun v => (v, rest) else none
  | .null, fuel, depth, rest, hfuel, hrest => by
    obtain ⟨fuel, rfl⟩ := exists_fuel hfuel
    simp [value?, Tree.chars, skipSpace_cons (c := 'n') (by decide), afterWord?, Tree.levels,
      Tree.value?]
  | .bool true, fuel, depth, rest, hfuel, hrest => by
    obtain ⟨fuel, rfl⟩ := exists_fuel hfuel
    simp [value?, Tree.chars, skipSpace_cons (c := 't') (by decide), afterWord?, Tree.levels,
      Tree.value?]
  | .bool false, fuel, depth, rest, hfuel, hrest => by
    obtain ⟨fuel, rfl⟩ := exists_fuel hfuel
    simp [value?, Tree.chars, skipSpace_cons (c := 'f') (by decide), afterWord?, Tree.levels,
      Tree.value?]
  | .number n, fuel, depth, rest, hfuel, hrest => by
    obtain ⟨fuel, rfl⟩ := exists_fuel hfuel
    obtain ⟨c, cs, hcs, hc⟩ := n.exists_cons
    have hnumber := number?_chars n hrest
    rw [hcs, List.cons_append] at hnumber
    rw [Tree.chars, hcs, List.cons_append, value?_number hc, hnumber, Tree.levels,
      if_pos (Nat.zero_le depth), Tree.value?]
  | .string s, fuel, depth, rest, hfuel, hrest => by
    obtain ⟨fuel, rfl⟩ := exists_fuel hfuel
    rw [Tree.chars, value?_quoted, Tree.levels, if_pos (Nat.zero_le depth), Tree.value?,
      Option.map_map]
    rfl
  | .emptyArray b, fuel, depth, rest, hfuel, hrest => by
    obtain ⟨fuel, rfl⟩ := exists_fuel hfuel
    cases depth with
    | zero => exact value?_deep (.inl rfl)
    | succ depth =>
      simp [value?, Tree.chars, skipSpace_cons (c := '[') (by decide),
        skipSpace_cons (c := ']') (by decide), Tree.levels, Tree.value?]
  | .emptyObject b, fuel, depth, rest, hfuel, hrest => by
    obtain ⟨fuel, rfl⟩ := exists_fuel hfuel
    cases depth with
    | zero => exact value?_deep (.inr rfl)
    | succ depth =>
      simp [value?, Tree.chars, skipSpace_cons (c := '\x7b') (by decide),
        skipSpace_cons (c := '\x7d') (by decide), Tree.levels, Tree.value?]
      rfl
  | .array items, fuel, depth, rest, hfuel, hrest => by
    obtain ⟨fuel, rfl⟩ := exists_fuel hfuel
    cases depth with
    | zero => exact value?_deep (.inl rfl)
    | succ depth =>
      have hitems : 2 * items.chars.length + 1 ≤ fuel := by
        simp only [Tree.chars, List.length_cons, List.length_append, List.length_nil] at hfuel
        omega
      simp only [Tree.chars, List.cons_append, List.append_assoc, List.nil_append]
      rw [value?_bracket (items.skipSpace_ne _), items?_items items hitems]
      simp only [Tree.levels, Tree.value?, Nat.add_le_add_iff_right, Option.map_map]
      rfl
  | .object members, fuel, depth, rest, hfuel, hrest => by
    obtain ⟨fuel, rfl⟩ := exists_fuel hfuel
    cases depth with
    | zero => exact value?_deep (.inr rfl)
    | succ depth =>
      have hmembers : 2 * members.chars.length + 1 ≤ fuel := by
        simp only [Tree.chars, List.length_cons, List.length_append, List.length_nil] at hfuel
        omega
      simp only [Tree.chars, List.cons_append, List.append_assoc, List.nil_append]
      rw [value?_brace (members.skipSpace_ne _), members?_members members hmembers]
      simp only [Tree.levels, Tree.value?, Nat.add_le_add_iff_right, Option.map_map]
      rfl

theorem items?_items : (items : Items) → {fuel depth : Nat} → {acc : List Value} →
    {rest : List Char} → 2 * items.chars.length + 1 ≤ fuel →
    items? fuel depth acc (items.chars ++ ']' :: rest) =
      if items.levels ≤ depth then
        items.values?.map fun vs => (.array (acc.reverse ++ vs), rest)
      else none
  | .last before t after, fuel, depth, acc, rest, hfuel => by
    obtain ⟨fuel, rfl⟩ : ∃ k, fuel = k + 1 := ⟨fuel - 1, by omega⟩
    simp only [Items.chars, List.length_append] at hfuel
    simp only [Items.chars, List.append_assoc, items?, value?_blanks]
    rw [value?_tree t (by omega) (ends_bracket after rest), Items.levels, Items.values?]
    by_cases hlevels : t.levels ≤ depth
    · rw [if_pos hlevels, if_pos hlevels]
      cases t.value? with
      | none => rfl
      | some v => simp [skipSpace_cons (c := ']') (by decide)]
    · rw [if_neg hlevels, if_neg hlevels]
  | .more before t after items, fuel, depth, acc, rest, hfuel => by
    obtain ⟨fuel, rfl⟩ : ∃ k, fuel = k + 1 := ⟨fuel - 1, by omega⟩
    simp only [Items.chars, List.length_append, List.length_cons] at hfuel
    simp only [Items.chars, List.append_assoc, List.cons_append, items?, value?_blanks]
    rw [value?_tree t (by omega) (ends_comma after _), Items.levels, Items.values?]
    by_cases hlevels : t.levels ≤ depth
    · rw [if_pos hlevels]
      cases t.value? with
      | none => simp
      | some v =>
        simp only [Option.map_some, skipSpace_blanks, skipSpace_cons (c := ',') (by decide),
          Option.bind_some]
        rw [items?_items items (by omega)]
        by_cases hrest : items.levels ≤ depth
        · rw [if_pos hrest, if_pos (Nat.max_le.2 ⟨hlevels, hrest⟩), Option.map_map]
          simp [Function.comp_def]
        · rw [if_neg hrest, if_neg fun h => hrest (Nat.max_le.1 h).2]
    · rw [if_neg hlevels, if_neg fun h => hlevels (Nat.max_le.1 h).1]

theorem members?_members : (members : Members) → {fuel depth : Nat} → {acc : Dict Value} →
    {rest : List Char} → 2 * members.chars.length + 1 ≤ fuel →
    members? fuel depth acc (members.chars ++ '\x7d' :: rest) =
      if members.levels ≤ depth then
        members.entries?.map fun es => (.ofDict (es.foldl (fun d e => d.insert e.1 e.2) acc), rest)
      else none
  | .last before key behindKey before' t after, fuel, depth, acc, rest, hfuel => by
    obtain ⟨fuel, rfl⟩ : ∃ k, fuel = k + 1 := ⟨fuel - 1, by omega⟩
    simp only [Members.chars, List.length_append, List.length_cons] at hfuel
    simp only [Members.chars, List.append_assoc, List.cons_append]
    rw [members?_key, Members.levels, Members.entries?]
    cases stringText? key with
    | none => simp
    | some k =>
      simp only [Option.bind_some]
      rw [value?_tree t (by omega) (ends_brace after rest)]
      by_cases hlevels : t.levels ≤ depth
      · rw [if_pos hlevels, if_pos hlevels]
        cases t.value? with
        | none => rfl
        | some v => simp [skipSpace_cons (c := '\x7d') (by decide)]
      · rw [if_neg hlevels, if_neg hlevels]
  | .more before key behindKey before' t after members, fuel, depth, acc, rest, hfuel => by
    obtain ⟨fuel, rfl⟩ : ∃ k, fuel = k + 1 := ⟨fuel - 1, by omega⟩
    simp only [Members.chars, List.length_append, List.length_cons] at hfuel
    simp only [Members.chars, List.append_assoc, List.cons_append]
    rw [members?_key, Members.levels, Members.entries?]
    cases stringText? key with
    | none => simp
    | some k =>
      simp only [Option.bind_some]
      rw [value?_tree t (by omega) (ends_comma after _)]
      by_cases hlevels : t.levels ≤ depth
      · rw [if_pos hlevels]
        cases t.value? with
        | none => simp
        | some v =>
          simp only [Option.map_some, skipSpace_blanks, skipSpace_cons (c := ',') (by decide),
            Option.bind_some]
          rw [members?_members members (by omega)]
          by_cases hrest : members.levels ≤ depth
          · rw [if_pos hrest, if_pos (Nat.max_le.2 ⟨hlevels, hrest⟩), Option.map_map]
            rfl
          · rw [if_neg hrest, if_neg fun h => hrest (Nat.max_le.1 h).2]
      · rw [if_neg hlevels, if_neg fun h => hlevels (Nat.max_le.1 h).1]

end

/-! Whole texts -/

theorem afterWord?_eq {word cs rest : List Char} (h : afterWord? word cs = some rest) :
    cs = word ++ rest := by
  induction word generalizing cs with
  | nil =>
    cases h
    rfl
  | cons w word ih =>
    cases cs with
    | nil => cases h
    | cons c cs =>
      rw [afterWord?] at h
      split at h
      · next heq => rw [heq, ih h, List.cons_append]
      · cases h

/-- What is read as a value is the text of a tree with blanks in front. -/
def ReadsTrees (fuel : Nat) : Prop := ∀ {depth : Nat} {cs : List Char} {v : Value}
  {rest : List Char}, value? fuel depth cs = some (v, rest) →
    ∃ (b : Blanks) (t : Tree), cs = b.chars ++ (t.chars ++ rest)

def ReadsItems (fuel : Nat) : Prop := ∀ {depth : Nat} {acc : List Value} {cs : List Char}
  {v : Value} {rest : List Char}, items? fuel depth acc cs = some (v, rest) →
    ∃ items : Items, cs = items.chars ++ ']' :: rest

def ReadsMembers (fuel : Nat) : Prop := ∀ {depth : Nat} {acc : Dict Value} {cs : List Char}
  {v : Value} {rest : List Char}, members? fuel depth acc cs = some (v, rest) →
    ∃ members : Members, cs = members.chars ++ '\x7d' :: rest

section

variable {fuel : Nat} (hvalue : ReadsTrees fuel) (hitems : ReadsItems fuel)
  (hmembers : ReadsMembers fuel)

include hitems hmembers in
/-- Each kind of value by its first character, with what is inside read by less fuel. -/
theorem ReadsTrees.succ : ReadsTrees (fuel + 1) := by
  intro depth cs v rest h
  rcases hskip : skipSpace cs with _ | ⟨c, behind⟩
  · simp only [value?, hskip] at h
    cases h
  obtain ⟨b, rfl⟩ := exists_blanks_of_skipSpace hskip
  suffices ∃ t : Tree, c :: behind = t.chars ++ rest from
    this.elim fun t ht => ⟨b, t, by rw [ht]⟩
  simp only [value?, hskip] at h
  split at h
  · next hquote =>
    obtain ⟨p, hp, heq⟩ := Option.map_eq_some_iff.1 h
    cases heq
    obtain ⟨s, rfl⟩ := exists_pieces hp
    exact ⟨.string s, by simp [Tree.chars, quotedChars, hquote]⟩
  split at h
  · next hbracket =>
    cases depth with
    | zero => cases h
    | succ depth =>
      simp only at h
      split at h
      · next hclose =>
        cases h
        obtain ⟨inner, rfl⟩ := exists_blanks_of_skipSpace hclose
        exact ⟨.emptyArray inner, by simp [Tree.chars, hbracket]⟩
      · rw [items?_skipSpace] at h
        obtain ⟨items, rfl⟩ := hitems h
        exact ⟨.array items, by simp [Tree.chars, hbracket]⟩
  split at h
  · next hbrace =>
    cases depth with
    | zero => cases h
    | succ depth =>
      simp only at h
      split at h
      · next hclose =>
        cases h
        obtain ⟨inner, rfl⟩ := exists_blanks_of_skipSpace hclose
        exact ⟨.emptyObject inner, by simp [Tree.chars, hbrace]⟩
      · rw [members?_skipSpace] at h
        obtain ⟨members, rfl⟩ := hmembers h
        exact ⟨.object members, by simp [Tree.chars, hbrace]⟩
  split at h
  · next hc =>
    obtain ⟨r, hr, heq⟩ := Option.map_eq_some_iff.1 h
    cases heq
    exact ⟨.null, by rw [hc, afterWord?_eq hr]; rfl⟩
  split at h
  · next hc =>
    obtain ⟨r, hr, heq⟩ := Option.map_eq_some_iff.1 h
    cases heq
    exact ⟨.bool true, by rw [hc, afterWord?_eq hr]; rfl⟩
  split at h
  · next hc =>
    obtain ⟨r, hr, heq⟩ := Option.map_eq_some_iff.1 h
    cases heq
    exact ⟨.bool false, by rw [hc, afterWord?_eq hr]; rfl⟩
  · obtain ⟨n, hn⟩ := exists_numeral h
    exact ⟨.number n, hn⟩

include hvalue hitems in
theorem ReadsItems.succ : ReadsItems (fuel + 1) := by
  intro depth acc cs v rest h
  simp only [items?] at h
  split at h
  · cases h
  · next w behind hw =>
    obtain ⟨before, t, rfl⟩ := hvalue hw
    split at h
    · next hcomma =>
      obtain ⟨after, rfl⟩ := exists_blanks_of_skipSpace hcomma
      obtain ⟨items, rfl⟩ := hitems h
      exact ⟨.more before t after items, by simp [Items.chars]⟩
    · next hclose =>
      cases h
      obtain ⟨after, rfl⟩ := exists_blanks_of_skipSpace hclose
      exact ⟨.last before t after, by simp [Items.chars]⟩
    · cases h

include hvalue hmembers in
theorem ReadsMembers.succ : ReadsMembers (fuel + 1) := by
  intro depth acc cs v rest h
  simp only [members?] at h
  split at h
  · next behindQuote hquote =>
    obtain ⟨before, rfl⟩ := exists_blanks_of_skipSpace hquote
    split at h
    · cases h
    · next k behindKey hk =>
      obtain ⟨key, rfl⟩ := exists_pieces hk
      split at h
      · next hcolon =>
        obtain ⟨blanks, rfl⟩ := exists_blanks_of_skipSpace hcolon
        split at h
        · cases h
        · next w behind hw =>
          obtain ⟨before', t, rfl⟩ := hvalue hw
          split at h
          · next hcomma =>
            obtain ⟨after, rfl⟩ := exists_blanks_of_skipSpace hcomma
            obtain ⟨members, rfl⟩ := hmembers h
            exact ⟨.more before key blanks before' t after members,
              by simp [Members.chars, quotedChars]⟩
          · next hclose =>
            cases h
            obtain ⟨after, rfl⟩ := exists_blanks_of_skipSpace hclose
            exact ⟨.last before key blanks before' t after,
              by simp [Members.chars, quotedChars]⟩
          · cases h
      · cases h
  · cases h

end

/-- Reading spends one step for a value and for each part of an array or object. -/
theorem reads (fuel : Nat) : ReadsTrees fuel ∧ ReadsItems fuel ∧ ReadsMembers fuel := by
  induction fuel with
  | zero =>
    refine ⟨fun h => ?_, fun h => ?_, fun h => ?_⟩
    · cases h
    · cases h
    · cases h
  | succ fuel ih =>
    obtain ⟨hvalue, hitems, hmembers⟩ := ih
    exact ⟨ReadsTrees.succ hitems hmembers, ReadsItems.succ hvalue hitems,
      ReadsMembers.succ hvalue hmembers⟩

end BindingRegistry.Json
