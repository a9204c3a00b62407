import BindingRegistry.Proofs.Time.Parts

/-!
What a text must hold for a layout to take it. The mark of a text is its first
character that is neither white space nor a digit. The first items of a layout
decide which marks a text may have, taking out the name of a zone does not touch
the mark unless it is a capital letter, and items for marks and numbers take
nothing but these.
-/
namespace BindingRegistry.Time

open Decimal (isDigit)

theorem exists_of_bind_ok {α β ε : Type} {x : Except ε α} {f : α → Except ε β} {b : β}
    (h : (x >>= f) = .ok b) : ∃ a, x = .ok a ∧ f a = .ok b := by
  cases x with
  | error e => cases h
  | ok a => exact ⟨a, rfl, h⟩

/-- The digits `ds`, as many as are taken for a number of `least` to `most` digits, stand in front
of `rest`. -/
structure Scanned (least most : Nat) (cs ds rest : List Char) : Prop where
  eq_append : cs = ds ++ rest
  digits : ∀ c ∈ ds, isDigit c = true
  least_le : least ≤ ds.length
  le_most : ds.length ≤ most
  ends : ds.length = most ∨ Stops rest

theorem stops_dropWhile (cs : List Char) : Stops (cs.dropWhile isDigit) := by
  intro c hc
  have hnot := List.head?_dropWhile_not isDigit cs
  rw [Option.mem_def.1 hc] at hnot
  simpa using hnot

theorem scanned_takeWhile {least most : Nat} {cs ds : List Char}
    (hds : (cs.take most).takeWhile isDigit = ds) (hleast : least ≤ ds.length) :
    Scanned least most cs ds (cs.drop ds.length) := by
  have hfront : ds <+: cs :=
    hds ▸ (List.takeWhile_prefix isDigit).trans (List.take_prefix most cs)
  have hall : (cs.takeWhile isDigit).take most = ds := by rw [List.take_takeWhile, hds]
  refine ⟨(List.prefix_iff_eq_append.1 hfront).symm, ?_, hleast, ?_, ?_⟩
  · rw [← hds]
    exact fun c hc => List.mem_takeWhile_imp hc
  · rw [← hall]
    exact List.length_take_le most _
  · by_cases hmost : most ≤ (cs.takeWhile isDigit).length
    · exact .inl (by rw [← hall, List.length_take, Nat.min_eq_left hmost])
    · have hwhole : cs.takeWhile isDigit = ds := by
        rw [← hall, List.take_of_length_le (Nat.le_of_not_le hmost)]
      have hrest : cs.drop ds.length = cs.dropWhile isDigit := by
        conv_lhs => rw [← List.takeWhile_append_dropWhile (p := isDigit) (l := cs), hwhole]
        rw [List.drop_left]
      exact .inr (hrest ▸ stops_dropWhile cs)

/-- Scanning a number takes its digits and nothing else. -/
theorem exists_scanned {least most n count : Nat} {cs rest : List Char}
    (h : scanNumber least most cs = .ok (n, count, rest)) :
    ∃ ds, Scanned least most cs ds rest ∧ n = Decimal.value ds ∧ count = ds.length := by
  simp only [scanNumber] at h
  split at h
  · cases h
  · split at h
    · cases h
    · next hleast =>
      cases h
      exact ⟨_, scanned_takeWhile rfl (Nat.le_of_not_lt hleast), rfl, rfl⟩

theorem Scanned.scanNumber {least most : Nat} {cs ds rest : List Char}
    (h : Scanned least most cs ds rest) :
    scanNumber least most cs = .ok (Decimal.value ds, ds.length, rest) := by
  rw [h.eq_append]
  exact scanNumber_digits h.digits h.least_le h.le_most h.ends

/-- Noting a number does not look at the rest of the text. -/
theorem setField_other {fs fs' : Fields} {f : Field} {n : Int} {cs rest : List Char}
    (h : setField fs f n cs = .ok (fs', rest)) :
    cs = rest ∧ ∀ other, setField fs f n other = .ok (fs', other) := by
  unfold setField at h
  split at h
  · next hbounds =>
    cases h
    exact ⟨rfl, fun other => if_pos hbounds⟩
  · cases h

/-- What is in front of `rest` consists of characters with the property. -/
def Behind (p : Char → Bool) (cs rest : List Char) : Prop :=
  ∃ taken, cs = taken ++ rest ∧ ∀ c ∈ taken, p c = true

section Behind

variable {p q : Char → Bool} {cs ds rest : List Char}

theorem Behind.refl (p : Char → Bool) (cs : List Char) : Behind p cs cs :=
  ⟨[], rfl, List.forall_mem_nil _⟩

theorem Behind.cons {c : Char} (hc : p c = true) (h : Behind p cs rest) :
    Behind p (c :: cs) rest := by
  obtain ⟨taken, rfl, htaken⟩ := h
  exact ⟨c :: taken, rfl, List.forall_mem_cons.2 ⟨hc, htaken⟩⟩

theorem Behind.trans (h : Behind p cs ds) (h' : Behind p ds rest) : Behind p cs rest := by
  obtain ⟨taken, rfl, htaken⟩ := h
  obtain ⟨more, rfl, hmore⟩ := h'
  refine ⟨taken ++ more, (List.append_assoc _ _ _).symm, fun c hc => ?_⟩
  exact (List.mem_append.1 hc).elim (htaken c) (hmore c)

theorem Behind.mono (hpq : ∀ c, p c = true → q c = true) (h : Behind p cs rest) :
    Behind q cs rest := by
  obtain ⟨taken, hcs, htaken⟩ := h
  exact ⟨taken, hcs, fun c hc => hpq c (htaken c hc)⟩

theorem Behind.subset (h : Behind p cs rest) : rest ⊆ cs := by
  obtain ⟨taken, rfl, -⟩ := h
  exact List.subset_append_right taken rest

theorem behind_dropWhile (p : Char → Bool) (cs : List Char) : Behind p cs (cs.dropWhile p) :=
  ⟨cs.takeWhile p, List.takeWhile_append_dropWhile.symm, fun _ hc => List.mem_takeWhile_imp hc⟩

theorem Scanned.behind {least most : Nat} (h : Scanned least most cs ds rest) :
    Behind isDigit cs rest := ⟨ds, h.eq_append, h.digits⟩

end Behind

def isFiller (c : Char) : Bool := Text.isBlank c || isDigit c

def isYearChar (c : Char) : Bool := isFiller c || c = '+' || c = '-'

theorem isFiller_of_isBlank (c : Char) (h : Text.isBlank c = true) : isFiller c = true := by
  rw [isFiller, h, Bool.true_or]

theorem isFiller_of_isDigit (c : Char) (h : isDigit c = true) : isFiller c = true := by
  rw [isFiller, h, Bool.or_true]

section Items

variable {fs fs' : Fields} {cs rest : List Char}

/-- A number that is scanned and noted leaves what is behind its digits. -/
theorem exists_scanned_of_bind {f : Field} {least most : Nat} {g : Nat → Int}
    (h : (scanNumber least most cs >>= fun p => setField fs f (g p.1) p.2.2) = .ok (fs', rest)) :
    ∃ ds, Scanned least most cs ds rest ∧
      setField fs f (g (Decimal.value ds)) rest = .ok (fs', rest) := by
  obtain ⟨⟨n, count, left⟩, hscan, hset⟩ := exists_of_bind_ok h
  obtain rfl := (setField_other hset).1
  obtain ⟨ds, hds, rfl, -⟩ := exists_scanned hscan
  exact ⟨ds, hds, hset⟩

theorem behind_number {f : Field} {most : Nat}
    (h : matchItem (.number f most) fs cs = .ok (fs', rest)) : Behind isFiller cs rest := by
  obtain ⟨ds, hds, -⟩ := exists_scanned_of_bind (g := Int.ofNat) h
  exact ((behind_dropWhile Text.isBlank cs).mono isFiller_of_isBlank).trans
    (hds.behind.mono isFiller_of_isDigit)

/-- A year takes blanks, digits and its sign, nothing else. -/
theorem behind_signedYear (h : matchItem .signedYear fs cs = .ok (fs', rest)) :
    Behind isYearChar cs rest := by
  have hblank (c : Char) (hc : Text.isBlank c = true) : isYearChar c = true := by
    simp [isYearChar, isFiller_of_isBlank c hc]
  have hdigit (c : Char) (hc : isDigit c = true) : isYearChar c = true := by
    simp [isYearChar, isFiller_of_isDigit c hc]
  refine ((behind_dropWhile Text.isBlank cs).mono hblank).trans ?_
  rw [matchItem] at h
  split at h
  · next hcs =>
    obtain ⟨ds, hds, -⟩ := exists_scanned_of_bind (g := fun n => -n) h
    exact hcs ▸ (hds.behind.mono hdigit).cons rfl
  · next hcs =>
    obtain ⟨ds, hds, -⟩ := exists_scanned_of_bind (g := Int.ofNat) h
    exact hcs ▸ (hds.behind.mono hdigit).cons rfl
  · obtain ⟨ds, hds, -⟩ := exists_scanned_of_bind (g := Int.ofNat) h
    exact hds.behind.mono hdigit

theorem eq_cons_of_literal {c : Char} (h : matchItem (.literal c) fs cs = .ok (fs', rest)) :
    cs = c :: rest ∧ fs' = fs := by
  cases cs with
  | nil => cases h
  | cons d cs =>
    simp only [matchItem] at h
    split at h
    · next hd =>
      cases h
      exact ⟨by rw [hd], rfl⟩
    · cases h

theorem exists_of_oneOf {choices : List Char}
    (h : matchItem (.oneOf choices) fs cs = .ok (fs', rest)) :
    ∃ c, choices.contains c = true ∧ cs = c :: rest ∧ fs' = fs := by
  cases cs with
  | nil => cases h
  | cons d cs =>
    simp only [matchItem] at h
    split at h
    · next hd =>
      cases h
      exact ⟨d, hd, rfl, rfl⟩
    · cases h

/-- The characters taken by the items for white space, marks and numbers. -/
def Item.admitted? : Item → Option (Char → Bool)
  | .blank => some Text.isBlank
  | .literal c => some (· = c)
  | .oneOf choices => some choices.contains
  | .number _ _ => some isFiller
  | .signedYear => some isYearChar
  | _ => none

theorem behind_of_admitted {item : Item} {p : Char → Bool} (hp : item.admitted? = some p)
    (h : matchItem item fs cs = .ok (fs', rest)) : Behind p cs rest := by
  cases item with
  | blank =>
    cases hp
    cases h
    exact behind_dropWhile _ cs
  | literal c =>
    cases hp
    exact (eq_cons_of_literal h).1 ▸ (Behind.refl _ rest).cons (decide_eq_true rfl)
  | oneOf choices =>
    cases hp
    obtain ⟨c, hc, rfl, -⟩ := exists_of_oneOf h
    exact (Behind.refl _ rest).cons hc
  | number f most =>
    cases hp
    exact behind_number h
  | signedYear =>
    cases hp
    exact behind_signedYear h
  | _ => cases hp

theorem exists_of_matchItems_cons {item : Item} {items : List Item}
    (h : matchItems fs cs (item :: items) = .ok (fs', rest)) : ∃ fs₁ cs₁,
      matchItem item fs cs = .ok (fs₁, cs₁) ∧ matchItems fs₁ cs₁ items = .ok (fs', rest) := by
  rw [matchItems] at h
  split at h
  · next fs₁ cs₁ hitem => exact ⟨fs₁, cs₁, hitem, h⟩
  · cases h

/-- What none of the items takes is left over. -/
theorem mem_of_not_admitted {items : List Item} {c : Char}
    (hitems : ∀ item ∈ items, item.admitted?.any (!· c) = true)
    (h : matchItems fs cs items = .ok (fs', rest)) (hc : c ∈ cs) : c ∈ rest := by
  induction items generalizing fs cs with
  | nil =>
    cases h
    exact hc
  | cons item items ih =>
    obtain ⟨hitem, hothers⟩ := List.forall_mem_cons.1 hitems
    obtain ⟨fs₁, cs₁, hfirst, hrest⟩ := exists_of_matchItems_cons h
    cases hp : item.admitted? with
    | none => simp [hp] at hitem
    | some p =>
      obtain ⟨taken, rfl, htaken⟩ := behind_of_admitted hp hfirst
      refine ih hothers hrest ((List.mem_append.1 hc).resolve_left fun hmem => ?_)
      simp [hp, htaken c hmem] at hitem

/-- The character of a literal stands in the text. -/
theorem mem_of_literal {front more : List Item} {c : Char}
    (hfront : ∀ item ∈ front, item.admitted?.isSome = true)
    (h : matchItems fs cs (front ++ .literal c :: more) = .ok (fs', rest)) : c ∈ cs := by
  induction front generalizing fs cs with
  | nil =>
    obtain ⟨fs₁, cs₁, hfirst, -⟩ := exists_of_matchItems_cons h
    exact (eq_cons_of_literal hfirst).1 ▸ List.mem_cons_self
  | cons item front ih =>
    obtain ⟨hitem, hothers⟩ := List.forall_mem_cons.1 hfront
    obtain ⟨p, hp⟩ := Option.isSome_iff_exists.1 hitem
    obtain ⟨fs₁, cs₁, hfirst, hrest⟩ := exists_of_matchItems_cons h
    exact (behind_of_admitted hp hfirst).subset (ih hothers hrest)

end Items

/-- The first character of a text that is neither white space nor a digit. -/
def mark? (cs : List Char) : Option Char := cs.find? (!isFiller ·)

theorem mark?_append (as bs : List Char) : mark? (as ++ bs) = (mark? as).or (mark? bs) :=
  List.find?_append

theorem mark?_eq_none_iff {cs : List Char} : mark? cs = none ↔ ∀ c ∈ cs, isFiller c = true := by
  simp [mark?]

theorem mark?_of_behind {cs rest : List Char} (h : Behind isFiller cs rest) :
    mark? cs = mark? rest := by
  obtain ⟨taken, rfl, htaken⟩ := h
  rw [mark?_append, mark?_eq_none_iff.2 htaken, Option.none_or]

theorem mark?_cons {c : Char} (hc : isFiller c = false) (cs : List Char) :
    mark? (c :: cs) = some c := List.find?_cons_of_pos (by simp [hc])

/-- Whether `c` can be the mark of a text that the items take. -/
def opens (c : Char) : List Item → Bool
  | .blank :: items | .number _ _ :: items => opens c items
  | .signedYear :: items => c = '+' || c = '-' || opens c items
  | .literal d :: _ => c = d || isFiller d
  | .monthName :: _ | .weekdayName _ :: _ => c.toLower.isLower
  | _ => true

theorem isLower_toLower_of_isBlank {c : Char} (h : Text.isBlank c = true) :
    c.toLower.isLower = false := by
  have hstays : c.toLower = c := dif_neg fun hupper => by
    have hblank := (plain_of_isUpper (c := c) (decide_eq_true hupper)).blank
    rw [h] at hblank
    cases hblank
  rw [hstays]
  cases hlower : c.isLower with
  | false => rfl
  | true =>
    obtain ⟨hlow, hhigh⟩ := Bool.and_eq_true_iff.1 hlower
    have hbounds : 97 ≤ c.toNat ∧ c.toNat ≤ 122 :=
      ⟨UInt32.le_iff_toNat_le.1 (of_decide_eq_true hlow),
        UInt32.le_iff_toNat_le.1 (of_decide_eq_true hhigh)⟩
    simp only [Text.isBlank, Bool.or_eq_true, Bool.and_eq_true, decide_eq_true_eq] at h
    omega

theorem isFiller_of_isLower {c : Char} (h : c.toLower.isLower = true) : isFiller c = false := by
  have hblank : Text.isBlank c = false :=
    Bool.eq_false_of_not_eq_true fun hb => by simp [isLower_toLower_of_isBlank hb] at h
  have hdigit : isDigit c = false :=
    Bool.eq_false_of_not_eq_true fun hd => by simp [Decimal.isLower_toLower_of_isDigit hd] at h
  rw [isFiller, hblank, hdigit, Bool.or_false]

/-- A name that is found begins with a letter, and that is the mark of the text. -/
theorem isLower_of_findName {cs rest : List Char} {names : List String} {i j : Nat}
    (hnames : ∀ name ∈ names, name.toList.head?.any Char.isLower = true)
    (h : findName i cs names = some (j, rest)) {c : Char} (hc : mark? cs = some c) :
    c.toLower.isLower = true := by
  cases cs with
  | nil => cases hc
  | cons d cs =>
    cases hd : d.toLower.isLower with
    | false =>
      rw [findName_other hd hnames] at h
      cases h
    | true =>
      rw [mark?_cons (isFiller_of_isLower hd)] at hc
      cases hc
      exact hd

/-- If items take a text, its mark is a character that they can begin with behind blanks and
numbers. -/
theorem opens_of_mark {items : List Item} {fs fs' : Fields} {cs rest : List Char}
    (h : matchItems fs cs items = .ok (fs', rest)) {c : Char} (hc : mark? cs = some c) :
    opens c items = true := by
  induction items generalizing fs cs with
  | nil => rfl
  | cons item items ih =>
    obtain ⟨fs₁, cs₁, hfirst, hrest⟩ := exists_of_matchItems_cons h
    cases item with
    | blank =>
      have hskip : Behind Text.isBlank cs cs₁ := behind_of_admitted rfl hfirst
      exact ih hrest (mark?_of_behind (hskip.mono isFiller_of_isBlank) ▸ hc)
    | number f most => exact ih hrest (mark?_of_behind (behind_number hfirst) ▸ hc)
    | signedYear =>
      obtain ⟨taken, rfl, htaken⟩ := behind_signedYear hfirst
      rw [mark?_append, Option.or_eq_some_iff] at hc
      rcases hc with hc | ⟨-, hc⟩
      · have hyear := htaken c (List.mem_of_find?_eq_some hc)
        have hnot := List.find?_some hc
        simp_all [isYearChar, opens]
      · rw [opens, ih hrest hc, Bool.or_true]
    | literal d =>
      obtain ⟨rfl, -⟩ := eq_cons_of_literal hfirst
      cases hd : isFiller d with
      | true => rw [opens, hd, Bool.or_true]
      | false =>
        rw [mark?_cons hd] at hc
        cases hc
        simp [opens]
    | monthName =>
      rw [matchItem] at hfirst
      split at hfirst
      · next hname => exact isLower_of_findName (by decide) hname hc
      · cases hfirst
    | weekdayName long =>
      rw [matchItem] at hfirst
      split at hfirst
      · cases hfirst
      · next hname => exact isLower_of_findName (by decide) hname hc
    | _ => rfl

/-- Cutting a text into words does not touch its mark. -/
theorem mark?_words (cs : List Char) : mark? (Text.words cs).flatten = mark? cs := by
  rw [Text.words]
  fun_induction Text.runsOutside Text.isBlank cs with
  | case1 => rfl
  | case2 c rest hc ih =>
    have hskip : Behind isFiller (c :: rest) rest :=
      (Behind.refl isFiller rest).cons (isFiller_of_isBlank c hc)
    rw [ih, mark?_of_behind hskip]
  | case3 c rest hc ih =>
    have hword : c :: rest = (c :: rest.takeWhile (fun d => !Text.isBlank d)) ++
        rest.dropWhile (fun d => !Text.isBlank d) :=
      congrArg (c :: ·) List.takeWhile_append_dropWhile.symm
    rw [List.flatten_cons, mark?_append, ih, ← mark?_append, ← hword]

theorem mark?_intercalate (ws : List (List Char)) :
    mark? (List.intercalate [' '] ws) = mark? ws.flatten := by
  induction ws with
  | nil => rfl
  | cons w ws ih =>
    cases ws with
    | nil => rw [List.intercalate_singleton, List.flatten_singleton]
    | cons v vs =>
      have hblank : mark? [' '] = none := by decide
      rw [List.intercalate_cons_cons, mark?_append, mark?_append, hblank, Option.or_none, ih,
        ← mark?_append]
      rfl

theorem mark?_eraseIdx {ws : List (List Char)} {i : Nat}
    (hzone : (ws[i]?.getD []).all Char.isUpper = true) {c : Char} (hc : mark? ws.flatten = some c)
    (hupper : c.isUpper = false) : mark? (ws.eraseIdx i).flatten = some c := by
  induction ws generalizing i with
  | nil => cases hc
  | cons w ws ih =>
    rw [List.flatten_cons, mark?_append, Option.or_eq_some_iff] at hc
    cases i with
    | zero =>
      refine (hc.resolve_left fun hword => ?_).2
      have hmem := List.all_eq_true.1 hzone c (List.mem_of_find?_eq_some hword)
      rw [hupper] at hmem
      cases hmem
    | succ i =>
      rw [List.eraseIdx_cons_succ, List.flatten_cons, mark?_append, Option.or_eq_some_iff]
      exact hc.imp_right fun ⟨hnone, hrest⟩ => ⟨hnone, ih hzone hrest⟩

/-- Taking out the name of a zone leaves every mark but a capital letter. -/
theorem mark?_withoutZone {place : Nat} {cs cs' : List Char} (h : withoutZone? place cs = some cs')
    {c : Char} (hc : mark? cs = some c) (hupper : c.isUpper = false) : mark? cs' = some c := by
  simp only [withoutZone?] at h
  split at h
  · cases h
  · split at h
    · next hzone =>
      cases h
      rw [mark?_intercalate]
      exact mark?_eraseIdx hzone ((mark?_words cs).trans hc) hupper
    · cases h

theorem exists_of_parseItems {start : Fields} {items : List Item} {cs : List Char} {t : Instant}
    (h : parseItems start items cs = .ok t) :
    ∃ fs, matchItems start cs items = .ok (fs, []) ∧ fs.resolve = .ok t := by
  obtain ⟨⟨fs, rest⟩, hmatch, hend⟩ := exists_of_bind_ok h
  cases rest with
  | nil => exact ⟨fs, hmatch, hend⟩
  | cons c rest => cases hend

section Layouts

variable {l : Layout} {cs : List Char} {t : Instant}

theorem exists_parse_of_read? (h : l.read? cs = some t) :
    ∃ cs', (l.zone = none ∧ cs' = cs ∨
        ∃ place, l.zone = some place ∧ withoutZone? place cs = some cs') ∧
      parseItems l.start l.items cs' = .ok t := by
  have hparse {cs' : List Char} (ht : (parseItems l.start l.items cs').toOption = some t) :
      parseItems l.start l.items cs' = .ok t := by
    cases hp : parseItems l.start l.items cs' with
    | error e => simp [hp, Except.toOption] at ht
    | ok t' => simpa [hp, Except.toOption] using ht
  rw [Layout.read?] at h
  split at h
  · next hzone => exact ⟨cs, .inl ⟨hzone, rfl⟩, hparse h⟩
  · next place hzone =>
    obtain ⟨cs', hcs', ht⟩ := Option.bind_eq_some_iff.1 h
    exact ⟨cs', .inr ⟨place, hzone, hcs'⟩, hparse ht⟩

theorem parseItems_of_read? (hzone : l.zone = none) (h : l.read? cs = some t) :
    parseItems l.start l.items cs = .ok t := by
  obtain ⟨cs', hcs', hparse⟩ := exists_parse_of_read? h
  rcases hcs' with ⟨-, rfl⟩ | ⟨place, hplace, -⟩
  · exact hparse
  · rw [hzone] at hplace
    cases hplace

/-- A layout refuses texts with a mark that it cannot open with. -/
theorem Layout.read?_of_mark {c : Char} (hc : mark? cs = some c) (hupper : c.isUpper = false)
    (hopens : opens c l.items = false) : l.read? cs = none := by
  refine Option.eq_none_iff_forall_ne_some.2 fun t ht => ?_
  obtain ⟨cs', hcs', hparse⟩ := exists_parse_of_read? ht
  obtain ⟨fs, hmatch, -⟩ := exists_of_parseItems hparse
  have hmark : mark? cs' = some c := by
    rcases hcs' with ⟨-, rfl⟩ | ⟨place, -, hzone⟩
    · exact hc
    · exact mark?_withoutZone hzone hc hupper
  rw [opens_of_mark hmatch hmark] at hopens
  cases hopens

/-- A layout refuses texts with a character that none of its items takes. -/
theorem Layout.read?_of_not_admitted {c : Char} (hc : c ∈ cs) (hzone : l.zone = none)
    (hitems : ∀ item ∈ l.items, item.admitted?.any (!· c) = true) : l.read? cs = none := by
  refine Option.eq_none_iff_forall_ne_some.2 fun t ht => ?_
  obtain ⟨fs, hmatch, -⟩ := exists_of_parseItems (parseItems_of_read? hzone ht)
  exact absurd (mem_of_not_admitted hitems hmatch hc) List.not_mem_nil

end Layouts

/-- A text that begins with a number and a dash, or with a sign, and has a colon somewhere, is for
the strict form alone. The other layouts begin with a name, look for one behind a number, or have no
place for a colon behind the dash. -/
theorem read?_of_dash {cs : List Char} {c : Char} (hmark : mark? cs = some c)
    (hc : c = '-' ∨ c = '+') (hcolon : ':' ∈ cs) : ∀ l ∈ layouts.tail, l.read? cs = none := by
  have hlayouts : ∀ l ∈ layouts.tail, (opens '-' l.items = false ∧ opens '+' l.items = false) ∨
      l.zone = none ∧ ∀ item ∈ l.items, item.admitted?.any (!· ':') = true := by decide
  have hsign : c.isUpper = false := by rcases hc with rfl | rfl <;> rfl
  intro l hl
  rcases hlayouts l hl with hopens | ⟨hzone, hitems⟩
  · refine Layout.read?_of_mark hmark hsign ?_
    rcases hc with rfl | rfl
    · exact hopens.1
    · exact hopens.2
  · exact Layout.read?_of_not_admitted hcolon hzone hitems

end BindingRegistry.Time
