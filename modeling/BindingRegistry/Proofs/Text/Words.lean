import BindingRegistry.Proofs.Text.Blanks

/-!
Texts made of words. However many blanks part its words, a text is cut into the
same ones, trimming keeps it, and the words joined by single blanks are another
such text.
-/
namespace BindingRegistry.Text

structure IsWord (w : List Char) : Prop where
  ne_nil : w ≠ []
  solid : Solid w

theorem IsWord.append {v w : List Char} (hv : IsWord v) (hw : Solid w) : IsWord (v ++ w) :=
  ⟨List.append_ne_nil_of_left_ne_nil hv.ne_nil w, hv.solid.append hw⟩

/-- The end of a text, or white space. -/
def Ends (rest : List Char) : Prop := ∀ c ∈ rest.head?, isBlank c = true

theorem ends_nil : Ends [] := by simp [Ends]

theorem Blanks.ends {b : List Char} (hb : Blanks b) (hne : b ≠ []) (cs : List Char) :
    Ends (b ++ cs) := by
  intro c hc
  cases b with
  | nil => exact absurd rfl hne
  | cons d b =>
    obtain rfl : d = c := by simpa using hc
    exact hb d List.mem_cons_self

inductive Spaced : List (List Char) → List Char → Prop where
  | word {w : List Char} : IsWord w → Spaced [w] w
  | cons {w b cs : List Char} {ws : List (List Char)} :
    IsWord w → Blanks b → b ≠ [] → Spaced ws cs → Spaced (w :: ws) (w ++ (b ++ cs))

theorem words_nil : words [] = [] := by rw [words, runsOutside]

theorem words_blanks {b : List Char} (hb : Blanks b) (cs : List Char) :
    words (b ++ cs) = words cs := by
  induction b with
  | nil => rfl
  | cons c b ih =>
    have hrest := ih fun d hd => hb d (List.mem_cons_of_mem c hd)
    rw [List.cons_append, words, runsOutside, if_pos (hb c List.mem_cons_self)]
    exact hrest

theorem words_word {w rest : List Char} (hw : IsWord w) (hrest : Ends rest) :
    words (w ++ rest) = w :: words rest := by
  obtain ⟨hne, hsolid⟩ := hw
  cases w with
  | nil => exact absurd rfl hne
  | cons c w =>
    obtain ⟨hc, hw⟩ := Solid.cons_iff.1 hsolid
    have hkept : ∀ d ∈ w, (!isBlank d) = true := fun d hd => by simp [hw d hd]
    have hstop : rest.takeWhile (fun d => !isBlank d) = [] ∧
        rest.dropWhile (fun d => !isBlank d) = rest := by
      cases rest with
      | nil => exact ⟨rfl, rfl⟩
      | cons d rest =>
        have hd : ¬(!isBlank d) = true := by simp [hrest d rfl]
        exact ⟨List.takeWhile_cons_of_neg hd, List.dropWhile_cons_of_neg hd⟩
    rw [List.cons_append, words, runsOutside, hc, if_neg Bool.false_ne_true,
      List.takeWhile_append_of_pos hkept, List.dropWhile_append_of_pos hkept, hstop.1, hstop.2,
      List.append_nil, words]

section

variable {ws : List (List Char)} {cs : List Char}

theorem Spaced.words (h : Spaced ws cs) : words cs = ws := by
  induction h with
  | @word w hw =>
    have hall := words_word hw ends_nil
    rwa [List.append_nil, words_nil] at hall
  | cons hw hb hne _ ih => rw [words_word hw (hb.ends hne _), words_blanks hb, ih]

/-- A text without white space is one word. -/
theorem words_of_solid {c : Char} {cs : List Char} (h : Solid (c :: cs)) :
    Text.words (c :: cs) = [c :: cs] :=
  (Spaced.word ⟨List.cons_ne_nil c cs, h⟩).words

theorem Spaced.isWord (h : Spaced ws cs) : ∀ w ∈ ws, IsWord w := by
  induction h with
  | word hw => exact List.forall_mem_singleton.2 hw
  | cons hw _ _ _ ih => exact List.forall_mem_cons.2 ⟨hw, ih⟩

/-- Words joined by single blanks. -/
theorem spaced_intercalate (hne : ws ≠ []) (hws : ∀ w ∈ ws, IsWord w) :
    Spaced ws (List.intercalate [' '] ws) := by
  have hblank : Blanks [' '] := by decide
  induction ws with
  | nil => exact absurd rfl hne
  | cons w ws ih =>
    obtain ⟨hw, hrest⟩ := List.forall_mem_cons.1 hws
    cases ws with
    | nil =>
      rw [List.intercalate_singleton]
      exact .word hw
    | cons v vs =>
      rw [List.intercalate_cons_cons, List.append_assoc]
      exact .cons hw hblank (List.cons_ne_nil _ _) (ih (List.cons_ne_nil v vs) hrest)

theorem Spaced.exists_front {w : List Char} (h : Spaced (w :: ws) cs) :
    ∃ rest, Ends rest ∧ cs = w ++ rest := by
  cases h with
  | word hw => exact ⟨[], ends_nil, (List.append_nil _).symm⟩
  | cons _ hb hne _ => exact ⟨_, hb.ends hne _, rfl⟩

theorem Spaced.head (h : Spaced ws cs) : ∃ c ∈ cs.head?, isBlank c = false := by
  have hfront {w : List Char} (hw : IsWord w) (rest : List Char) :
      ∃ c ∈ (w ++ rest).head?, isBlank c = false := by
    obtain ⟨c, hc, hsolid⟩ := hw.solid.head hw.ne_nil
    exact ⟨c, by rw [List.head?_append, hc]; rfl, hsolid⟩
  cases h with
  | word hw => exact hw.solid.head hw.ne_nil
  | cons hw => exact hfront hw _

theorem Spaced.last (h : Spaced ws cs) : ∃ c ∈ cs.getLast?, isBlank c = false := by
  induction h with
  | word hw =>
    have hrev := hw.solid.reverse.head (by simpa using hw.ne_nil)
    rwa [List.head?_reverse] at hrev
  | @cons w b cs _ _ _ _ _ ih =>
    obtain ⟨c, hc, hsolid⟩ := ih
    exact ⟨c, by simp [List.getLast?_append, Option.mem_def.1 hc], hsolid⟩

theorem Spaced.trimChars_between (h : Spaced ws cs) {before after : List Char} (hb : Blanks before)
    (ha : Blanks after) : trimChars (between before cs after).toList = cs := by
  rw [between, String.toList_ofList]
  exact trimChars_of_ends hb h.head h.last ha

/-- Between two words there is white space. -/
theorem Spaced.exists_blank {v w : List Char} (h : Spaced (v :: w :: ws) cs) :
    ∃ c ∈ cs, isBlank c = true := by
  cases h with
  | @cons _ b _ _ _ hb hne _ =>
    obtain ⟨c, b, rfl⟩ := List.exists_cons_of_ne_nil hne
    exact ⟨c, by simp, hb c List.mem_cons_self⟩

end

end BindingRegistry.Text
