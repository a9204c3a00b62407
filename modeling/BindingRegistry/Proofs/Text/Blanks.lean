import Mathlib.Data.List.TakeWhile
import BindingRegistry.Text.Blank

/-!
White space around texts. What is blank at the ends of a text that has none
itself is all that trimming takes away.
-/
namespace BindingRegistry.Text

def Blanks (cs : List Char) : Prop := ∀ c ∈ cs, isBlank c = true

def Solid (cs : List Char) : Prop := ∀ c ∈ cs, isBlank c = false

instance (cs : List Char) : Decidable (Blanks cs) :=
  decidable_of_iff (cs.all isBlank = true) List.all_eq_true

instance (cs : List Char) : Decidable (Solid cs) :=
  decidable_of_iff (cs.all (!isBlank ·) = true) (by simp [Solid])

theorem Solid.cons_iff {c : Char} {cs : List Char} :
    Solid (c :: cs) ↔ isBlank c = false ∧ Solid cs := List.forall_mem_cons

theorem Solid.append {as bs : List Char} (ha : Solid as) (hb : Solid bs) : Solid (as ++ bs) := by
  intro c hc
  exact (List.mem_append.1 hc).elim (ha c) (hb c)

/-- Blanks are dropped up to the first character that is none. -/
theorem dropWhile_append_head {before cs : List Char} (hb : Blanks before)
    (hcs : ∃ c ∈ cs.head?, isBlank c = false) : (before ++ cs).dropWhile isBlank = cs := by
  rw [List.dropWhile_append_of_pos hb]
  obtain ⟨c, hc, hsolid⟩ := hcs
  cases cs with
  | nil => cases hc
  | cons d rest =>
    obtain rfl : d = c := by simpa using hc
    rw [List.dropWhile_cons_of_neg (by simp [hsolid])]

theorem Solid.head {cs : List Char} (h : Solid cs) (hne : cs ≠ []) :
    ∃ c ∈ cs.head?, isBlank c = false :=
  ⟨cs.head hne, List.head?_eq_some_head hne, h _ (List.head_mem hne)⟩

theorem Solid.reverse {cs : List Char} (h : Solid cs) : Solid cs.reverse :=
  fun c hc => h c (List.mem_reverse.1 hc)

/-- Blanks before a solid text are dropped, and what follows them stays. -/
theorem dropWhile_blanks {before cs after : List Char} (hb : Blanks before) (hcs : Solid cs)
    (hne : cs ≠ []) : (before ++ (cs ++ after)).dropWhile isBlank = cs ++ after := by
  obtain ⟨c, hc, hsolid⟩ := hcs.head hne
  exact dropWhile_append_head hb ⟨c, by rw [List.head?_append, hc]; rfl, hsolid⟩

/-- Trimming takes away the blanks around a text that is solid at both ends. -/
theorem trimChars_of_ends {before cs after : List Char} (hb : Blanks before)
    (hfirst : ∃ c ∈ cs.head?, isBlank c = false) (hlast : ∃ c ∈ cs.getLast?, isBlank c = false)
    (ha : Blanks after) : trimChars (before ++ cs ++ after) = cs := by
  have hrev : Blanks after.reverse := fun c hc => ha c (List.mem_reverse.1 hc)
  have hfront : ∃ c ∈ (cs ++ after).head?, isBlank c = false := by
    obtain ⟨c, hc, hsolid⟩ := hfirst
    exact ⟨c, by rw [List.head?_append, hc]; rfl, hsolid⟩
  have hback : ∃ c ∈ cs.reverse.head?, isBlank c = false := by rwa [List.head?_reverse]
  rw [trimChars, trimList, List.append_assoc, dropWhile_append_head hb hfront, List.reverse_append,
    dropWhile_append_head hrev hback, List.reverse_reverse]

theorem trimChars_blanks {before cs after : List Char} (hb : Blanks before) (hcs : Solid cs)
    (hne : cs ≠ []) (ha : Blanks after) : trimChars (before ++ cs ++ after) = cs := by
  have hlast := hcs.reverse.head (by simpa using hne)
  rw [List.head?_reverse] at hlast
  exact trimChars_of_ends hb (hcs.head hne) hlast ha

/-- Trimming takes away blanks at both ends and nothing else. -/
theorem exists_trimChars (cs : List Char) :
    ∃ before after, Blanks before ∧ Blanks after ∧ cs = before ++ trimChars cs ++ after := by
  have hblanks (ds : List Char) : Blanks (ds.takeWhile isBlank) :=
    fun _ hc => List.mem_takeWhile_imp hc
  have hback : (cs.dropWhile isBlank).reverse.takeWhile isBlank ++ (trimChars cs).reverse =
      (cs.dropWhile isBlank).reverse := by
    rw [trimChars, trimList, List.reverse_reverse, List.takeWhile_append_dropWhile]
  have hfront : trimChars cs ++ ((cs.dropWhile isBlank).reverse.takeWhile isBlank).reverse =
      cs.dropWhile isBlank := by
    have hreverse := congrArg List.reverse hback
    rwa [List.reverse_append, List.reverse_reverse, List.reverse_reverse] at hreverse
  refine ⟨cs.takeWhile isBlank, ((cs.dropWhile isBlank).reverse.takeWhile isBlank).reverse,
    hblanks cs, fun c hc => hblanks _ c (List.mem_reverse.1 hc), ?_⟩
  rw [List.append_assoc, hfront, List.takeWhile_append_dropWhile]

/-- A text with other characters before and after it. -/
def between (before cs after : List Char) : String := String.ofList (before ++ cs ++ after)

theorem trimChars_between {before cs after : List Char} (hb : Blanks before) (hcs : Solid cs)
    (hne : cs ≠ []) (ha : Blanks after) : trimChars (between before cs after).toList = cs := by
  rw [between, String.toList_ofList]
  exact trimChars_blanks hb hcs hne ha

end BindingRegistry.Text
