import BindingRegistry.Text.Blank

/-!
Texts cut at characters. The parts between separators, put together again, are the
text; a separator between two texts parts all of the first from all of the second.
-/
namespace BindingRegistry.Text

variable {p q : Char → Bool}

theorem splitWhere_ne_nil (cs : List Char) : splitWhere p cs ≠ [] := by
  cases cs with
  | nil => exact List.cons_ne_nil _ _
  | cons c cs =>
    rw [splitWhere]
    split
    · exact List.cons_ne_nil _ _
    · split <;> exact List.cons_ne_nil _ _

theorem splitWhere_of {c : Char} (h : p c = true) (cs : List Char) :
    splitWhere p (c :: cs) = [] :: splitWhere p cs := by
  rw [splitWhere, if_pos h]

theorem splitWhere_of_not {c : Char} (h : p c = false) {cs part : List Char}
    {parts : List (List Char)} (hcs : splitWhere p cs = part :: parts) :
    splitWhere p (c :: cs) = (c :: part) :: parts := by
  rw [splitWhere, if_neg (by simp [h]), hcs]

theorem splitWhere_append {sep : Char} (h : p sep = true) (as bs : List Char) :
    splitWhere p (as ++ sep :: bs) = splitWhere p as ++ splitWhere p bs := by
  induction as with
  | nil => exact splitWhere_of h bs
  | cons c as ih =>
    obtain ⟨part, parts, has⟩ := List.exists_cons_of_ne_nil (splitWhere_ne_nil (p := p) as)
    rw [has] at ih
    cases hc : p c with
    | true => rw [List.cons_append, splitWhere_of hc, splitWhere_of hc, ih, has]; rfl
    | false => rw [List.cons_append, splitWhere_of_not hc ih, splitWhere_of_not hc has]; rfl

theorem splitWhere_eq_singleton {cs : List Char} (h : ∀ c ∈ cs, p c = false) :
    splitWhere p cs = [cs] := by
  induction cs with
  | nil => rfl
  | cons c cs ih =>
    obtain ⟨hc, hcs⟩ := List.forall_mem_cons.1 h
    exact splitWhere_of_not hc (ih hcs)

theorem splitWhere_congr {cs : List Char} (h : ∀ c ∈ cs, p c = q c) :
    splitWhere p cs = splitWhere q cs := by
  induction cs with
  | nil => rfl
  | cons c cs ih =>
    obtain ⟨hc, hcs⟩ := List.forall_mem_cons.1 h
    rw [splitWhere, splitWhere, hc, ih hcs]

theorem intercalate_splitWhere (sep : Char) (cs : List Char) :
    List.intercalate [sep] (splitWhere (· = sep) cs) = cs := by
  induction cs with
  | nil => rfl
  | cons c cs ih =>
    obtain ⟨part, parts, hcs⟩ := List.exists_cons_of_ne_nil (splitWhere_ne_nil (p := (· = sep)) cs)
    rw [hcs] at ih
    by_cases hc : c = sep
    · subst hc
      rw [splitWhere_of (by simp), hcs, List.intercalate_cons_cons, ih]
      rfl
    · rw [splitWhere_of_not (by simpa using hc) hcs, ← ih]
      cases parts with
      | nil => simp
      | cons _ _ => simp [List.intercalate_cons_cons]

/-- Parts have only characters of the text, and no separator. -/
theorem mem_of_mem_splitWhere {cs part : List Char} {c : Char}
    (h : part ∈ splitWhere p cs) (hc : c ∈ part) : c ∈ cs ∧ p c = false := by
  induction cs generalizing part with
  | nil =>
    rw [List.mem_singleton.1 h] at hc
    cases hc
  | cons d cs ih =>
    have hlater {part : List Char} (h : part ∈ splitWhere p cs) (hc : c ∈ part) :
        c ∈ d :: cs ∧ p c = false :=
      ⟨List.mem_cons_of_mem _ (ih h hc).1, (ih h hc).2⟩
    cases hd : p d with
    | true =>
      rw [splitWhere_of hd] at h
      rcases List.mem_cons.1 h with rfl | h
      · cases hc
      · exact hlater h hc
    | false =>
      obtain ⟨first, parts, hcs⟩ := List.exists_cons_of_ne_nil (splitWhere_ne_nil (p := p) cs)
      rw [splitWhere_of_not hd hcs] at h
      rcases List.mem_cons.1 h with rfl | h
      · rcases List.mem_cons.1 hc with rfl | hc
        · exact ⟨List.mem_cons_self, hd⟩
        · exact hlater (hcs ▸ List.mem_cons_self) hc
      · exact hlater (hcs ▸ List.mem_cons_of_mem _ h) hc

theorem mem_intercalate {sep : List Char} {css : List (List Char)} {c : Char}
    (h : c ∈ List.intercalate sep css) : c ∈ sep ∨ ∃ cs ∈ css, c ∈ cs := by
  induction css with
  | nil => simp at h
  | cons cs css ih =>
    cases css with
    | nil => exact .inr ⟨cs, by simp, by simpa using h⟩
    | cons ds css =>
      rw [List.intercalate_cons_cons, List.mem_append, List.mem_append] at h
      rcases h with (h | h) | h
      · exact .inr ⟨cs, by simp, h⟩
      · exact .inl h
      · rcases ih h with h | ⟨es, hes, h⟩
        · exact .inl h
        · exact .inr ⟨es, List.mem_cons_of_mem _ hes, h⟩

theorem cutAt?_append {sep : Char} {as : List Char} (h : sep ∉ as) (bs : List Char) :
    cutAt? sep (as ++ sep :: bs) = some (as, bs) := by
  induction as with
  | nil => exact if_pos rfl
  | cons c as ih =>
    rw [List.mem_cons, not_or] at h
    rw [List.cons_append, cutAt?, if_neg (Ne.symm h.1), ih h.2]
    rfl

theorem cutAt?_of_notMem {sep : Char} {cs : List Char} (h : sep ∉ cs) : cutAt? sep cs = none := by
  induction cs with
  | nil => rfl
  | cons c cs ih =>
    rw [List.mem_cons, not_or] at h
    rw [cutAt?, if_neg (Ne.symm h.1), ih h.2]
    rfl

end BindingRegistry.Text
