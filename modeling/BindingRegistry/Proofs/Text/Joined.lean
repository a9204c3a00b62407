import Mathlib.Data.List.Nodup

/-!
Texts in two parts with a mark between them. Two such texts are the same only if
they are cut at the same mark, or if one goes on behind its mark up to that of
the other. They stand in the order of their first parts as long as these differ
within both; where one first part continues the other, what it goes on with is
compared with the mark.
-/
namespace BindingRegistry

section

variable {α : Type u} {mark : α} {as bs cs ds : List α}

/-- Two texts with a mark in them are the same only if they are cut at the same mark, or if one
goes on behind its mark up to that of the other. -/
theorem append_cons_eq_iff :
    as ++ mark :: bs = cs ++ mark :: ds ↔ (as = cs ∧ bs = ds) ∨
      (∃ x, cs = as ++ mark :: x ∧ bs = x ++ mark :: ds) ∨
      (∃ x, as = cs ++ mark :: x ∧ ds = x ++ mark :: bs) := by
  constructor
  · intro h
    rcases List.append_eq_append_iff.1 h with ⟨between, rfl, hbs⟩ | ⟨between, rfl, hds⟩
    · cases between with
      | nil => exact .inl ⟨(List.append_nil as).symm, (List.cons.inj hbs).2⟩
      | cons c x =>
        obtain ⟨rfl, hrest⟩ : mark = c ∧ bs = x ++ mark :: ds := by simpa using hbs
        exact .inr (.inl ⟨x, rfl, hrest⟩)
    · cases between with
      | nil => exact .inl ⟨List.append_nil cs, ((List.cons.inj hds).2).symm⟩
      | cons c x =>
        obtain ⟨rfl, hrest⟩ : mark = c ∧ ds = x ++ mark :: bs := by simpa using hds
        exact .inr (.inr ⟨x, rfl, hrest⟩)
  · rintro (⟨rfl, rfl⟩ | ⟨x, rfl, rfl⟩ | ⟨x, rfl, rfl⟩)
    · rfl
    · simp
    · simp

/-- What the second list goes on with behind the first one, if it begins with it. -/
def goesOn? [DecidableEq α] : List α → List α → Option α
  | _, [] => none
  | [], b :: _ => some b
  | a :: as, b :: bs => if a = b then goesOn? as bs else none

theorem goesOn?_eq_some_iff [DecidableEq α] {c : α} :
    goesOn? as bs = some c ↔ ∃ x, bs = as ++ c :: x := by
  fun_induction goesOn? as bs with
  | case1 as => simp
  | case2 b bs => simp [eq_comm]
  | case3 as b bs ih => simp [ih]
  | case4 a as b bs hne => simp [Ne.symm hne]

end

section

variable {α : Type u} [LT α]

/-- The first place where the lists differ is within both, and the first list has the smaller item
there. -/
inductive Precedes : List α → List α → Prop where
  | here {a b : α} (h : a < b) (as bs : List α) : Precedes (a :: as) (b :: bs)
  | behind (a : α) {as bs : List α} (h : Precedes as bs) : Precedes (a :: as) (a :: bs)

variable {as bs : List α}

namespace Precedes

theorem lt (h : Precedes as bs) : as < bs := by
  induction h with
  | here h as bs => exact List.cons_lt_cons_iff.2 (.inl h)
  | behind a _ ih => exact List.cons_lt_cons_iff.2 (.inr ⟨rfl, ih⟩)

/-- What follows does not matter. -/
theorem append (h : Precedes as bs) (xs ys : List α) : Precedes (as ++ xs) (bs ++ ys) := by
  induction h with
  | here h as bs => exact .here h _ _
  | behind a _ ih => exact .behind a ih

theorem append_left (xs : List α) (h : Precedes as bs) : Precedes (xs ++ as) (xs ++ bs) := by
  induction xs with
  | nil => exact h
  | cons x xs ih => exact .behind x ih

end Precedes

/-- A list comes before those that continue it and those it differs from within both. -/
theorem lt_iff_continued_or_precedes :
    as < bs ↔ (∃ c x, bs = as ++ c :: x) ∨ Precedes as bs := by
  constructor
  · intro h
    induction h with
    | nil => exact .inl ⟨_, _, rfl⟩
    | rel hlt => exact .inr (.here hlt _ _)
    | cons _ ih =>
      rcases ih with ⟨c, x, rfl⟩ | hp
      · exact .inl ⟨c, x, rfl⟩
      · exact .inr (.behind _ hp)
  · rintro (⟨c, x, rfl⟩ | hp)
    · have hmore : as ++ [] < as ++ c :: x := List.append_left_lt (List.nil_lt_cons c x)
      rwa [List.append_nil] at hmore
    · exact hp.lt

/-- Where the first part of a text comes before that of another, so does the text, unless the other
goes on with something before the mark, or with the mark and no more than the text has there. -/
theorem joined_lt_or [Std.Trichotomous fun a b : α => a < b] {mark : α} {cs ds : List α}
    (h : as < cs) : as ++ mark :: bs < cs ++ mark :: ds ∨ (∃ c x, c < mark ∧ cs = as ++ c :: x) ∨
      ∃ x, cs = as ++ mark :: x ∧ ¬ bs < x ++ mark :: ds := by
  rcases lt_iff_continued_or_precedes.1 h with ⟨c, x, rfl⟩ | hp
  · rcases Std.lt_trichotomy c mark with hc | rfl | hc
    · exact .inr (.inl ⟨c, x, hc, rfl⟩)
    · by_cases hbs : bs < x ++ c :: ds
      · refine .inl ?_
        rw [List.append_assoc]
        exact List.append_left_lt (List.cons_lt_cons_iff.2 (.inr ⟨rfl, hbs⟩))
      · exact .inr (.inr ⟨x, rfl, hbs⟩)
    · refine .inl ?_
      rw [List.append_assoc]
      exact List.append_left_lt (List.cons_lt_cons_iff.2 (.inl hc))
  · exact .inl (hp.append _ _).lt

end

end BindingRegistry
