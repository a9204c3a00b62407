import BindingRegistry.Proofs.Time.Matching

/-!
Layouts taken word by word. Where blanks stand between the parts of a layout,
every part has one word of the text to itself. So what a layout makes of a text
depends on the words alone and not on how many blanks part them, and taking out
the name of a zone is taking away one word.
-/
namespace BindingRegistry.Time

open Decimal (isDigit)
open Text (Blanks Ends Spaced)

/-- The parts of a layout, with room for blanks between them. -/
def joined (parts : List (List Item)) : List Item := List.intercalate [.blank] parts

theorem joined_cons {part : List Item} {parts : List (List Item)} (hne : parts ≠ []) :
    joined (part :: parts) = part ++ .blank :: joined parts := by
  rw [joined, List.intercalate_cons_of_ne_nil hne, List.append_assoc]
  rfl

theorem matchItems_append_eq (items more : List Item) (fs : Fields) (cs : List Char) :
    matchItems fs cs (items ++ more) =
      matchItems fs cs items >>= fun p => matchItems p.1 p.2 more := by
  induction items generalizing fs cs with
  | nil => rfl
  | cons item items ih =>
    rw [List.cons_append, matchItems, matchItems]
    cases matchItem item fs cs with
    | error e => rfl
    | ok p => exact ih p.1 p.2

theorem matchItems_append {items more : List Item} {fs fs' : Fields} {cs rest : List Char}
    (h : matchItems fs cs items = .ok (fs', rest)) :
    matchItems fs cs (items ++ more) = matchItems fs' rest more := by
  rw [matchItems_append_eq, h]
  rfl

/-- The items take a word up to the blank or the end behind it. -/
def TakesWord (items : List Item) (fs : Fields) (w : List Char) (fs' : Fields) : Prop :=
  ∀ rest, Ends rest → matchItems fs (w ++ rest) items = .ok (fs', rest)

theorem Takes.word {items : List Item} {fs fs' : Fields} {w : List Char}
    (h : Takes items fs w fs') : TakesWord items fs w fs' := by
  intro rest _
  have hall := h [] rest
  rwa [List.append_nil] at hall

/-- Each part takes its word, and the fields go from part to part. -/
inductive TakesAll : List (List Item) → Fields → List (List Char) → Fields → Prop where
  | nil (fs : Fields) : TakesAll [] fs [] fs
  | cons {part : List Item} {parts : List (List Item)} {fs fs' fs'' : Fields} {w : List Char}
    {ws : List (List Char)} : TakesWord part fs w fs' → TakesAll parts fs' ws fs'' →
      TakesAll (part :: parts) fs (w :: ws) fs''

section

variable {part : List Item} {parts more : List (List Item)} {fs fs' fs'' : Fields} {w : List Char}
  {ws vs : List (List Char)} {cs : List Char}

theorem TakesAll.one (h : TakesWord part fs w fs') : TakesAll [part] fs [w] fs' :=
  .cons h (.nil fs')

theorem TakesAll.append (h : TakesAll parts fs ws fs') (hmore : TakesAll more fs' vs fs'') :
    TakesAll (parts ++ more) fs (ws ++ vs) fs'' := by
  induction h with
  | nil => exact hmore
  | cons hpart _ ih => exact .cons hpart (ih hmore)

/-- A part takes its word, the blanks are dropped, and the other parts go on with the other
words. -/
theorem TakesWord.step (h : TakesWord part fs w fs') (hparts : parts ≠ []) (hws : ws ≠ [])
    (hs : Spaced (w :: ws) cs) :
    ∃ cs', Spaced ws cs' ∧
      matchItems fs cs (joined (part :: parts)) = matchItems fs' cs' (joined parts) := by
  cases hs with
  | word _ => exact absurd rfl hws
  | @cons _ b cs _ _ hb hne hrest =>
    refine ⟨cs, hrest, ?_⟩
    rw [joined_cons hparts, matchItems_append (h _ (hb.ends hne cs)), matchItems, matchItem,
      Text.dropWhile_append_head hb hrest.head]

/-- Parts that take their words take the text of them, with any blanks between. -/
theorem TakesAll.matchItems (h : TakesAll parts fs ws fs') (hs : Spaced ws cs) :
    matchItems fs cs (joined parts) = .ok (fs', []) := by
  induction h generalizing cs with
  | nil => cases hs
  | @cons part parts fs _ _ w ws hpart hrest ih =>
    cases hrest with
    | nil =>
      cases hs with
      | word _ =>
        have hall := hpart [] Text.ends_nil
        rw [List.append_nil] at hall
        rw [joined, List.intercalate_singleton, hall]
      | cons _ _ _ hnone => cases hnone
    | cons hnext hothers =>
      obtain ⟨cs', hs', hstep⟩ := hpart.step (List.cons_ne_nil _ _) (List.cons_ne_nil _ _) hs
      rw [hstep, ih hs']

/-- The layout refuses all texts of these words. -/
def Fails (parts : List (List Item)) (fs : Fields) (ws : List (List Char)) : Prop :=
  ∀ cs, Spaced ws cs → (parseItems fs (joined parts) cs).toOption = none

theorem Fails.of_refuses (h : ∀ rest, Ends rest → Refuses (joined parts) fs (w ++ rest)) :
    Fails parts fs (w :: ws) := by
  intro cs hs
  obtain ⟨rest, hrest, rfl⟩ := hs.exists_front
  exact (h rest hrest).parseItems

/-- A last part that goes no further than its word does not take the words behind it. -/
theorem Fails.of_more {v : List Char} (h : ∀ rest, Ends rest →
      (∃ fs', matchItems fs (w ++ rest) part = .ok (fs', rest)) ∨ Refuses part fs (w ++ rest)) :
    Fails [part] fs (w :: v :: vs) := by
  intro cs hs
  cases hs with
  | @cons _ b cs _ _ hb hne _ =>
    rw [joined, List.intercalate_singleton]
    rcases h _ (hb.ends hne cs) with ⟨fs', hall⟩ | hrefuses
    · have hleft : (b ++ cs).isEmpty = false := by simp [hne]
      rw [parseItems, hall]
      simp only [bind, Except.bind, hleft]
      rfl
    · exact hrefuses.parseItems

theorem TakesAll.fails (h : TakesAll parts fs ws fs') (hmore : more ≠ []) (hvs : vs ≠ [])
    (hfails : Fails more fs' vs) : Fails (parts ++ more) fs (ws ++ vs) := by
  induction h with
  | nil => exact hfails
  | cons hpart _ ih =>
    intro cs hs
    obtain ⟨cs', hs', hstep⟩ := hpart.step (List.append_ne_nil_of_right_ne_nil _ hmore)
      (List.append_ne_nil_of_right_ne_nil _ hvs) hs
    have hrest := ih hfails cs' hs'
    rw [parseItems] at hrest ⊢
    rwa [List.cons_append, hstep]

theorem withoutZone?_spaced {front back : List (List Char)} {mark : List Char}
    (hs : Spaced (front ++ mark :: back) cs) : withoutZone? back.length cs =
      if mark.all Char.isUpper then some (List.intercalate [' '] (front ++ back)) else none := by
  have hlength : (front ++ mark :: back).length = front.length + (back.length + 1) := by simp
  have hplace : front.length + (back.length + 1) - 1 - back.length = front.length := by omega
  have hmark : (front ++ mark :: back)[front.length]? = some mark := by simp
  have hrest : (front ++ mark :: back).eraseIdx front.length = front ++ back := by
    simp [List.eraseIdx_append_of_length_le]
  rw [withoutZone?, hs.words, hlength, if_neg (by omega)]
  simp only [hplace, hmark, hrest, Option.getD_some]

section

variable {start : Fields} {t : Instant}

theorem Layout.read?_of_takesAll (h : TakesAll parts start ws fs) (ht : fs.resolve = .ok t)
    (hs : Spaced ws cs) : (⟨joined parts, start, none⟩ : Layout).read? cs = some t :=
  Layout.read?_of_ok rfl ((parseItems_of_ok (h.matchItems hs)).trans ht)

theorem Layout.read?_of_fails (h : Fails parts start ws) (hs : Spaced ws cs) :
    (⟨joined parts, start, none⟩ : Layout).read? cs = none := h cs hs

variable {front back : List (List Char)} {mark : List Char}

theorem spaced_withoutZone (hs : Spaced (front ++ mark :: back) cs) (hne : front ≠ []) :
    Spaced (front ++ back) (List.intercalate [' '] (front ++ back)) := by
  refine Text.spaced_intercalate (List.append_ne_nil_of_left_ne_nil hne _) fun w hw => ?_
  refine hs.isWord w ?_
  rw [List.mem_append] at hw ⊢
  exact hw.imp_right (List.mem_cons_of_mem mark)

/-- Whatever its capital letters are, the name of the zone is left out of the reading. -/
theorem Layout.read?_of_zone (h : TakesAll parts start (front ++ back) fs)
    (ht : fs.resolve = .ok t) (hs : Spaced (front ++ mark :: back) cs) (hne : front ≠ [])
    (hmark : mark.all Char.isUpper = true) :
    (⟨joined parts, start, some back.length⟩ : Layout).read? cs = some t := by
  have hread := parseItems_of_ok (h.matchItems (spaced_withoutZone hs hne))
  simp only [Layout.read?, withoutZone?_spaced hs, if_pos hmark, Option.bind_eq_bind,
    Option.bind_some, hread, ht]
  rfl

theorem Layout.read?_of_zone_fails (h : Fails parts start (front ++ back))
    (hs : Spaced (front ++ mark :: back) cs) (hne : front ≠ []) :
    (⟨joined parts, start, some back.length⟩ : Layout).read? cs = none := by
  have hread := h _ (spaced_withoutZone hs hne)
  simp only [Layout.read?, withoutZone?_spaced hs]
  split
  · exact hread
  · rfl

/-- Anything but a name of capital letters in the place of the zone is refused. -/
theorem Layout.read?_of_not_upper (items : List Item) (start : Fields)
    (hs : Spaced (front ++ mark :: back) cs) (hmark : mark.all Char.isUpper = false) :
    (⟨items, start, some back.length⟩ : Layout).read? cs = none := by
  simp only [Layout.read?, withoutZone?_spaced hs, hmark]
  rfl

end

end

end BindingRegistry.Time
