import BindingRegistry.Number.Binary

/-!
Widening of binary values. A finite word is a significand and a shift, and a
magnitude that has such a form in a format is rounded to exactly that word. A
format that is within another in precision and in range has all its magnitudes
there too, so a value that is widened and narrowed again is the same, bit for
bit.
-/
namespace BindingRegistry

theorem log2_eq_of_twoTo {n k : Nat} (h : twoTo k ≤ n) (h' : n < twoTo (k + 1)) : n.log2 = k := by
  have hn : n ≠ 0 := by
    have := twoTo_pos k
    omega
  exact (Nat.log2_eq_iff hn).2 ⟨h, h'⟩

theorem log2_lt_of_twoTo {n k : Nat} (h : n < twoTo (k + 1)) : n.log2 ≤ k := by
  by_cases hn : n = 0
  · rw [hn]
    exact Nat.zero_le k
  · exact Nat.lt_succ_iff.1 ((Nat.log2_lt hn).2 h)

theorem twoTo_le {a b : Nat} (h : a ≤ b) : twoTo a ≤ twoTo b := Nat.pow_le_pow_right (by decide) h

/-- A quotient without a remainder is not rounded. -/
theorem roundHalfEven_mul (q : Nat) {den : Nat} (h : 0 < den) : roundHalfEven (q * den) den = q := by
  have hq : q * den / den = q := Nat.mul_div_cancel q h
  have hr : q * den % den = 0 := Nat.mul_mod_left q den
  simp only [roundHalfEven, hq, hr, Nat.mul_zero, h, if_true]

namespace FloatFormat

variable {f g : FloatFormat}

/-- The significand `m`, shifted by `s` places, is the form in which the format holds it: full,
unless it is not shifted at all. -/
structure Normal (f : FloatFormat) (m s : Nat) : Prop where
  lt : m < twoTo (f.fractionBits + 1)
  full : s = 0 ∨ twoTo f.fractionBits ≤ m

/-- The word of a significand and a shift. -/
def wordOf (f : FloatFormat) (m s : Nat) : Nat := m + s * twoTo f.fractionBits

/-- A normal significand and its shift are read back from their word. -/
theorem quanta_wordOf {m s : Nat} (h : f.Normal m s) : f.quanta (f.wordOf m s) = m * twoTo s := by
  have hpos := twoTo_pos f.fractionBits
  have hlt := h.lt
  rw [twoTo_succ] at hlt
  by_cases hm : m < twoTo f.fractionBits
  · obtain rfl : s = 0 := h.full.resolve_right (by omega)
    have hdiv : m / twoTo f.fractionBits = 0 := Nat.div_eq_of_lt hm
    rw [quanta, wordOf, Nat.zero_mul, Nat.add_zero, hdiv, if_pos rfl, Nat.mod_eq_of_lt hm]
    exact (Nat.mul_one m).symm
  · obtain ⟨r, rfl⟩ : ∃ r, m = twoTo f.fractionBits + r := Nat.exists_eq_add_of_le (by omega)
    have hr : r < twoTo f.fractionBits := by omega
    have hword : f.wordOf (twoTo f.fractionBits + r) s = r + (s + 1) * twoTo f.fractionBits := by
      rw [wordOf, Nat.succ_mul]
      omega
    have hdiv : (r + (s + 1) * twoTo f.fractionBits) / twoTo f.fractionBits = s + 1 := by
      rw [Nat.add_mul_div_right r (s + 1) hpos, Nat.div_eq_of_lt hr, Nat.zero_add]
    have hmod : (r + (s + 1) * twoTo f.fractionBits) % twoTo f.fractionBits = r := by
      rw [Nat.add_mul_mod_self_right, Nat.mod_eq_of_lt hr]
    rw [quanta, hword, hdiv, hmod, if_neg (Nat.succ_ne_zero s), Nat.add_sub_cancel]

/-- Every word has a significand and a shift. -/
theorem exists_normal (f : FloatFormat) (word : Nat) : ∃ m s, f.Normal m s ∧ word = f.wordOf m s := by
  have hpos := twoTo_pos f.fractionBits
  have hmod := Nat.mod_lt word hpos
  have hword := Nat.div_add_mod' word (twoTo f.fractionBits)
  cases hexp : word / twoTo f.fractionBits with
  | zero =>
    rw [hexp, Nat.zero_mul, Nat.zero_add] at hword
    refine ⟨word, 0, ⟨?_, .inl rfl⟩, ?_⟩
    · rw [twoTo_succ]
      omega
    · rw [wordOf, Nat.zero_mul, Nat.add_zero]
  | succ s =>
    rw [hexp, Nat.succ_mul] at hword
    refine ⟨twoTo f.fractionBits + word % twoTo f.fractionBits, s,
      ⟨?_, .inr (Nat.le_add_right _ _)⟩, ?_⟩
    · rw [twoTo_succ]
      omega
    · rw [wordOf]
      omega

theorem log2_sub_of_normal {m s : Nat} (h : f.Normal m s) :
    (m * twoTo s).log2 - f.fractionBits = s := by
  rcases h.full with rfl | hfull
  · have hlog : (m * twoTo 0).log2 ≤ f.fractionBits := log2_lt_of_twoTo (by
      rw [show twoTo 0 = 1 from rfl, Nat.mul_one]
      exact h.lt)
    omega
  · have hlow : twoTo (f.fractionBits + s) ≤ m * twoTo s := by
      rw [twoTo_add]
      exact Nat.mul_le_mul_right _ hfull
    have hhigh : m * twoTo s < twoTo (f.fractionBits + s + 1) := by
      rw [Nat.add_right_comm, twoTo_add]
      exact Nat.mul_lt_mul_of_pos_right h.lt (twoTo_pos s)
    rw [log2_eq_of_twoTo hlow hhigh]
    omega

/-- A magnitude that the format has is rounded to its own word. -/
theorem nearestWord_of_normal {m s k : Nat} (h : f.Normal m s) (hk : 0 < k)
    (hfinite : f.wordOf m s ≤ f.infinityWord) :
    f.nearestWord (m * twoTo s * k) k = f.wordOf m s := by
  have hshift : (m * twoTo s * k / k).log2 - f.fractionBits = s := by
    rw [Nat.mul_div_cancel _ hk, log2_sub_of_normal h]
  have hround : roundHalfEven (m * twoTo s * k) (k * twoTo s) = m := by
    rw [Nat.mul_assoc, Nat.mul_comm (twoTo s) k]
    exact roundHalfEven_mul m (Nat.mul_pos hk (twoTo_pos s))
  rw [nearestWord, hshift, hround]
  exact Nat.min_eq_left hfinite

/-- A significand that is not too long takes its form by giving up some of its shift. -/
theorem exists_normal_of_lt {m : Nat} (h : m < twoTo (f.fractionBits + 1)) (s : Nat) :
    ∃ m' s', f.Normal m' s' ∧ m' * twoTo s' = m * twoTo s ∧ s' ≤ s := by
  induction s generalizing m with
  | zero => exact ⟨m, 0, ⟨h, .inl rfl⟩, rfl, Nat.le_refl 0⟩
  | succ s ih =>
    by_cases hfull : twoTo f.fractionBits ≤ m
    · exact ⟨m, s + 1, ⟨h, .inr hfull⟩, rfl, Nat.le_refl _⟩
    · have hdouble : 2 * m < twoTo (f.fractionBits + 1) := by
        rw [twoTo_succ]
        omega
      obtain ⟨m', s', hn, he, hs⟩ := ih hdouble
      refine ⟨m', s', hn, ?_, Nat.le_succ_of_le hs⟩
      rw [he, twoTo_succ, Nat.mul_comm 2 m, Nat.mul_assoc, Nat.mul_comm 2]

structure Within (f g : FloatFormat) : Prop where
  fraction : f.fractionBits ≤ g.fractionBits
  scale : f.scale ≤ g.scale
  range : twoTo f.exponentBits + (g.scale - f.scale) < twoTo g.exponentBits

theorem within_double : single.Within double where
  fraction := by decide
  scale := by decide
  range := by decide

/-- The magnitude of a finite word is that of a finite word of every wider format. -/
theorem Within.exists_word (h : f.Within g) {word : Nat} (hword : word < f.infinityWord) :
    ∃ m s, g.Normal m s ∧ m * twoTo s = f.quanta word * twoTo (g.scale - f.scale) ∧
      g.wordOf m s < g.infinityWord := by
  obtain ⟨m, s, hn, rfl⟩ := f.exists_normal word
  have hm : m < twoTo (g.fractionBits + 1) :=
    Nat.lt_of_lt_of_le hn.lt (twoTo_le (Nat.add_le_add_right h.fraction 1))
  obtain ⟨m', s', hn', he, hs⟩ := exists_normal_of_lt hm (s + (g.scale - f.scale))
  refine ⟨m', s', hn', ?_, ?_⟩
  · rw [he, quanta_wordOf hn, twoTo_add, Nat.mul_assoc]
  · have hsmall : s < twoTo f.exponentBits - 1 := by
      refine Nat.lt_of_mul_lt_mul_right (Nat.lt_of_le_of_lt ?_ hword)
      exact Nat.le_add_left _ m
    have hrange := h.range
    have hbound : s' + 2 ≤ twoTo g.exponentBits - 1 := by omega
    have hlt := hn'.lt
    rw [twoTo_succ] at hlt
    have htotal := Nat.mul_le_mul_right (twoTo g.fractionBits) hbound
    rw [Nat.add_mul] at htotal
    rw [wordOf, infinityWord]
    omega

end FloatFormat

namespace Binary

variable {f g : FloatFormat}

theorem datum_of_isFinite {x : Binary f} (h : x.isFinite = true) :
    x.datum = .finite x.negative (f.quanta x.word) := by
  rw [datum, if_pos (of_decide_eq_true h)]

theorem convert_of_isFinite {x : Binary f} (h : x.isFinite = true) (g : FloatFormat) :
    x.convert g = nearest g x.negative (f.quanta x.word * twoTo g.scale) (twoTo f.scale) := by
  rw [convert, datum_of_isFinite h]

/-- A finite value is finite in every wider format, and narrowed again it is the same word. -/
theorem convert_convert (h : f.Within g) {x : Binary f} (hx : x.isFinite = true) :
    (x.convert g).isFinite = true ∧ (x.convert g).convert f = x := by
  have hword : x.word < f.infinityWord := of_decide_eq_true hx
  have hscale : twoTo g.scale = twoTo (g.scale - f.scale) * twoTo f.scale := by
    rw [← twoTo_add, Nat.sub_add_cancel h.scale]
  -- Neither way is anything rounded: both formats have the magnitude.
  obtain ⟨m, s, hn, he, hlt⟩ := h.exists_word hword
  have hwide : (x.convert g).word = g.wordOf m s := by
    rw [convert_of_isFinite hx]
    change g.nearestWord _ _ = _
    rw [hscale, ← Nat.mul_assoc, ← he]
    exact FloatFormat.nearestWord_of_normal hn (twoTo_pos f.scale) (Nat.le_of_lt hlt)
  have hfinite : (x.convert g).isFinite = true := decide_eq_true (hwide ▸ hlt)
  have hnegative : (x.convert g).negative = x.negative := by rw [convert_of_isFinite hx]; rfl
  refine ⟨hfinite, ?_⟩
  obtain ⟨m₀, s₀, hn₀, hw₀⟩ := f.exists_normal x.word
  have hback : f.nearestWord (g.quanta (x.convert g).word * twoTo f.scale) (twoTo g.scale) =
      x.word := by
    rw [hwide, FloatFormat.quanta_wordOf hn, he, Nat.mul_assoc, ← hscale, hw₀,
      FloatFormat.quanta_wordOf hn₀]
    exact FloatFormat.nearestWord_of_normal hn₀ (twoTo_pos g.scale) (hw₀ ▸ Nat.le_of_lt hword)
  rw [convert_of_isFinite hfinite, hnegative]
  simp only [nearest, hback]

end Binary

end BindingRegistry
