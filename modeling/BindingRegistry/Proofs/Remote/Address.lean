import BindingRegistry.Proofs.Number.Spelling
import BindingRegistry.Proofs.Text.Split
import BindingRegistry.Remote.Url

/-!
The characters of what reading an authority writes: graphic ones of ASCII, and none
that ends an authority. So an authority in its written form is taken off a longer
text as it stands.
-/
namespace BindingRegistry.Remote

/-- The characters of ASCII that leave a trace. -/
def isGraphic (c : Char) : Bool := 32 < c.toNat && c.toNat < 127

/-- What may stand in the authority of an address of the web. -/
def isInner (c : Char) : Bool := isGraphic c && !Url.endsAuthority true c

section

variable {p : Char → Bool} {set cs : List Char}

theorem all_hexDigits (hdigits : ∀ d < 16, p (Json.hexDigit d) = true) (width n : Nat) :
    ∀ c ∈ Json.hexDigits width n, p c = true := by
  induction width generalizing n with
  | zero =>
    intro c hc
    cases hc
  | succ width ih =>
    intro c hc
    rcases List.mem_append.1 hc with hc | hc
    · exact ih _ c hc
    · rw [List.mem_singleton.1 hc]
      exact hdigits _ (Nat.mod_lt _ (by decide))

/-- Escapes are made of percent signs and digits. -/
theorem all_percentEncode (hpercent : p '%' = true)
    (hdigits : ∀ d < 16, p (Json.hexDigit d).toUpper = true)
    (hkept : ∀ c ∈ cs, 32 ≤ c.toNat → c.toNat ≤ 126 → c ∉ set → p c = true) :
    ∀ c ∈ percentEncode set cs, p c = true := by
  intro c hc
  obtain ⟨d, hd, hc⟩ := List.mem_flatMap.1 hc
  split at hc
  · obtain ⟨b, -, hc⟩ := List.mem_flatMap.1 hc
    rcases List.mem_cons.1 hc with rfl | hc
    · exact hpercent
    · obtain ⟨e, he, rfl⟩ := List.mem_map.1 hc
      exact all_hexDigits (p := fun e => p e.toUpper) hdigits _ _ e he
  · next hplain =>
    obtain rfl := List.mem_singleton.1 hc
    simp only [Bool.or_eq_true, decide_eq_true_eq, not_or, List.contains_iff_mem] at hplain
    exact hkept c hd (by omega) (by omega) hplain.2

/-- What is graphic and outside the set is not escaped. -/
theorem percentEncode_eq_self (h : ∀ c ∈ cs, isGraphic c = true ∧ c ∉ set) :
    percentEncode set cs = cs := by
  induction cs with
  | nil => rfl
  | cons c cs ih =>
    obtain ⟨⟨hgraphic, hset⟩, hrest⟩ := List.forall_mem_cons.1 h
    simp only [isGraphic, Bool.and_eq_true, decide_eq_true_eq] at hgraphic
    have hplain : ¬(c.toNat < 32 || 126 < c.toNat || set.contains c) = true := by
      simp only [Bool.or_eq_true, decide_eq_true_eq, List.contains_iff_mem, hset, or_false]
      omega
    have hencode : percentEncode set (c :: cs) = [c] ++ percentEncode set cs := by
      rw [percentEncode, List.flatMap_cons, if_neg hplain]
      rfl
    rw [hencode, ih hrest]
    rfl

end

theorem isGraphic_of_bounds {c : Char} (hlow : 32 ≤ c.toNat) (hhigh : c.toNat ≤ 126)
    (hspace : c ≠ ' ') : isGraphic c = true := by
  have hne : c.toNat ≠ 32 := fun h => hspace (Char.toNat_inj.1 h)
  simp only [isGraphic, Bool.and_eq_true, decide_eq_true_eq]
  omega

/-- A property that blanks and the marks behind an authority lack. -/
theorem isInner_of {p : Char → Bool} {c : Char} (hc : p c = true)
    (hmarks : [' ', '/', '?', '#', '\\'].all (!p ·) = true) (hlow : 32 ≤ c.toNat)
    (hhigh : c.toNat ≤ 126) : isInner c = true := by
  have hne {d : Char} (hd : d ∈ [' ', '/', '?', '#', '\\']) : c ≠ d := by
    rintro rfl
    have hnot := List.all_eq_true.1 hmarks c hd
    rw [hc] at hnot
    cases hnot
  have hgraphic := isGraphic_of_bounds hlow hhigh (hne (by decide))
  simp [isInner, Url.endsAuthority, hgraphic, hne (d := '/') (by decide),
    hne (d := '?') (by decide), hne (d := '#') (by decide), hne (d := '\\') (by decide)]

theorem isInner_of_isDigit {c : Char} (h : Decimal.isDigit c = true) : isInner c = true := by
  have hbounds := Decimal.toNat_of_isDigit h
  exact isInner_of h (by decide) (by omega) (by omega)

/-- Whatever ends an authority is escaped in names and passwords. -/
theorem all_userinfoText (cs : List Char) : ∀ c ∈ Url.userinfoText cs, isInner c = true := by
  have hencode (cs : List Char) : ∀ c ∈ percentEncode Url.userinfoSet cs, isInner c = true := by
    refine all_percentEncode (by decide) (by decide) fun c _ hlow hhigh hset => ?_
    exact isInner_of (p := fun c => !Url.userinfoSet.contains c) (by simpa using hset) (by decide)
      hlow hhigh
  unfold Url.userinfoText
  split
  · exact hencode _
  · exact hencode _
  · intro c hc
    rcases List.mem_append.1 hc with hc | hc
    · exact hencode _ c hc
    · rcases List.mem_cons.1 hc with rfl | hc
      · decide
      · exact hencode _ c hc

theorem all_ipv4Text (n : Nat) : ∀ c ∈ ipv4Text n, isInner c = true := by
  intro c hc
  rcases Text.mem_intercalate hc with hc | ⟨cs, hcs, hc⟩
  · rw [List.mem_singleton.1 hc]
    decide
  · obtain ⟨m, -, rfl⟩ := List.mem_map.1 hcs
    exact isInner_of_isDigit (Decimal.isDigit_of_mem_digits hc)

theorem all_pieceText (n : Nat) : ∀ c ∈ pieceText n, isInner c = true := by
  unfold pieceText
  split
  · intro c hc
    rw [List.mem_singleton.1 hc]
    decide
  · intro c hc
    exact all_hexDigits (by decide) 4 n c ((List.dropWhile_sublist _).subset hc)

theorem all_piecesText (ps : List Nat) : ∀ c ∈ piecesText ps, isInner c = true := by
  intro c hc
  rcases Text.mem_intercalate hc with hc | ⟨cs, hcs, hc⟩
  · rw [List.mem_singleton.1 hc]
    decide
  · obtain ⟨n, -, rfl⟩ := List.mem_map.1 hcs
    exact all_pieceText n c hc

theorem all_ipv6Text (ps : List Nat) : ∀ c ∈ ipv6Text ps, isInner c = true := by
  have hbracket : ∀ c ∈ ['[', ']', ':'], isInner c = true := List.all_eq_true.1 (by decide)
  unfold ipv6Text
  intro c hc
  simp only [List.cons_append, List.mem_cons, List.mem_append, List.not_mem_nil, or_false] at hc
  rcases hc with rfl | hc | rfl
  · exact hbracket _ (by decide)
  · split at hc
    · exact all_piecesText _ c hc
    · simp only [List.mem_append, List.mem_cons] at hc
      rcases hc with hc | rfl | rfl | hc
      · exact all_piecesText _ c hc
      · exact hbracket _ (by decide)
      · exact hbracket _ (by decide)
      · exact all_piecesText _ c hc
  · exact hbracket _ (by decide)

/-! Punycode -/

section

open Text.Punycode

variable {p : Char → Bool} (hdigits : ∀ d < 36, p (digitChar d) = true)

include hdigits

theorem all_differenceDigits (bias k q : Nat) : ∀ c ∈ differenceDigits bias k q, p c = true := by
  induction k, q using differenceDigits.induct bias with
  | case1 k q t hlt =>
    intro c hc
    rw [differenceDigits, if_pos hlt] at hc
    rw [List.mem_singleton.1 hc]
    have hle := threshold_le k bias
    exact hdigits q (by omega)
  | case2 k q t hge ih =>
    intro c hc
    rw [differenceDigits, if_neg hge] at hc
    rcases List.mem_cons.1 hc with rfl | hc
    · have hle := threshold_le k bias
      have hmod : (q - threshold k bias) % (36 - threshold k bias) < 36 - threshold k bias :=
        Nat.mod_lt _ (by omega)
      exact hdigits _ (by omega)
    · exact ih c hc

/-- A pass only adds digits. -/
theorem all_passFor (n basic : Nat) {cs : List Char} {s : State} (h : ∀ c ∈ s.output, p c = true) :
    ∀ c ∈ (passFor n basic cs s).output, p c = true := by
  unfold passFor
  induction cs generalizing s with
  | nil => exact h
  | cons c cs ih =>
    rw [List.foldl_cons]
    split
    · exact ih h
    · split
      · refine ih fun d hd => ?_
        rcases List.mem_append.1 hd with hd | hd
        · exact h d hd
        · exact all_differenceDigits hdigits _ _ _ d hd
      · exact ih h

theorem all_encodeRest (basic : Nat) (cs : List Char) {todo : List Nat} {n : Nat} {s : State}
    (h : ∀ c ∈ s.output, p c = true) :
    ∀ c ∈ (encodeRest basic cs todo n s).output, p c = true := by
  induction todo generalizing n s with
  | nil => exact h
  | cons m todo ih => exact ih (all_passFor hdigits m basic h)

theorem all_encode (hdash : p '-' = true) {cs : List Char}
    (h : ∀ c ∈ cs, c.toNat < 128 → p c = true) : ∀ c ∈ encode cs, p c = true := by
  have hbasic : ∀ c ∈ cs.filter (fun c => c.toNat < 128), p c = true := by
    intro c hc
    obtain ⟨hc, hlt⟩ := List.mem_filter.1 hc
    exact h c hc (of_decide_eq_true hlt)
  refine all_encodeRest hdigits _ _ fun c hc => ?_
  split at hc
  · cases hc
  · rcases List.mem_append.1 hc with hc | hc
    · exact hbasic c hc
    · rw [List.mem_singleton.1 hc]
      exact hdash

end

/-! Hosts and authorities -/

theorem all_asciiLabel {cs : List Char} (h : ∀ c ∈ cs, c.toNat < 128 → isInner c = true) :
    ∀ c ∈ asciiLabel cs, isInner c = true := by
  intro c hc
  unfold asciiLabel at hc
  split at hc
  · next hascii => exact h c hc (of_decide_eq_true (List.all_eq_true.1 hascii c hc))
  · rcases List.mem_append.1 hc with hc | hc
    · have hall : "xn--".toList.all isInner = true := by decide
      exact List.all_eq_true.1 hall c hc
    · exact all_encode (by decide) (by decide) h c hc

theorem isInner_of_not_forbidden {c : Char} (h : forbiddenInDomain c = false)
    (hascii : c.toNat < 128) : isInner c = true := by
  have hbounds : ¬c.toNat ≤ 32 ∧ ¬c.toNat = 127 := by
    simp only [forbiddenInDomain, Bool.or_eq_false_iff, decide_eq_false_iff_not] at h
    exact h.1
  exact isInner_of (p := (!forbiddenInDomain ·)) (by rw [h]; rfl) (by decide) (by omega) (by omega)

theorem ipv4Text_ne_nil (n : Nat) : ipv4Text n ≠ [] := by
  simp [ipv4Text, List.intercalate_cons_cons, Decimal.digits_ne_nil]

theorem all_labels {cs : List Char} (h : ∀ c ∈ cs, forbiddenInDomain c = false) :
    ∀ c ∈ List.intercalate ['.'] ((Text.splitWhere (· = '.') cs).map asciiLabel),
      isInner c = true := by
  intro c hc
  rcases Text.mem_intercalate hc with hc | ⟨label, hlabel, hc⟩
  · rw [List.mem_singleton.1 hc]
    decide
  · obtain ⟨part, hpart, rfl⟩ := List.mem_map.1 hlabel
    refine all_asciiLabel (fun d hd hascii => ?_) c hc
    exact isInner_of_not_forbidden (h d (Text.mem_of_mem_splitWhere hpart hd).1) hascii

/-- A host is a number in brackets, numbers between dots, or labels, and none of them is empty. -/
theorem inner_of_domainHost {cs host : List Char} (h : domainHost cs = .ok host) :
    host ≠ [] ∧ ∀ c ∈ host, isInner c = true := by
  unfold domainHost at h
  dsimp only [bind, Except.bind, pure, Except.pure, throw, throwThe, MonadExceptOf.throw] at h
  split at h
  · split at h
    · cases h
    · split at h
      · cases h
        exact ⟨List.cons_ne_nil _ _, all_ipv6Text _⟩
      · cases h
  · split at h
    · split at h
      · cases h
      · next hallowed =>
        have hlabels := all_labels fun c hc =>
          Bool.eq_false_iff.2 fun hc' => hallowed (List.any_eq_true.2 ⟨c, hc, hc'⟩)
        split at h
        · cases h
        · next hempty =>
          split at h
          · split at h
            · cases h
              exact ⟨ipv4Text_ne_nil _, all_ipv4Text _⟩
            · cases h
          · cases h
            exact ⟨fun hnil => hempty (List.isEmpty_iff.2 hnil), hlabels⟩
    · cases h

theorem all_takeUser (cs : List Char) : ∀ c ∈ (Url.takeUser cs).1, isInner c = true := by
  unfold Url.takeUser
  split
  · intro c hc
    cases hc
  · exact all_userinfoText _

theorem inner_of_authorityOf {scheme : String} {cs : List Char} {a : Authority}
    (hweb : Url.isWebScheme scheme = true) (h : Url.authorityOf scheme cs = .ok a) :
    (∀ c ∈ a.userinfo, isInner c = true) ∧ a.host ≠ [] ∧ ∀ c ∈ a.host, isInner c = true := by
  unfold Url.authorityOf at h
  dsimp only [bind, Except.bind, pure, Except.pure, throw, throwThe, MonadExceptOf.throw] at h
  split at h
  · cases h
  · split at h
    · cases h
    · next hhost =>
      split at h
      · cases h
      · cases h
        exact ⟨all_takeUser cs, inner_of_domainHost hhost⟩

/-- An authority is written as two slashes and something that nothing in it ends. -/
theorem authorityText_eq {a : Authority} (huser : ∀ c ∈ a.userinfo, isInner c = true)
    (hne : a.host ≠ []) (hhost : ∀ c ∈ a.host, isInner c = true) :
    ∃ cs, Url.authorityText a = '/' :: '/' :: cs ∧ cs ≠ [] ∧ ∀ c ∈ cs, isInner c = true := by
  refine ⟨_, rfl, by simp [hne], fun c hc => ?_⟩
  rcases List.mem_append.1 hc with hc | hc
  · rcases List.mem_append.1 hc with hc | hc
    · split at hc
      · cases hc
      · rcases List.mem_append.1 hc with hc | hc
        · exact huser c hc
        · rw [List.mem_singleton.1 hc]
          decide
    · exact hhost c hc
  · split at hc
    · cases hc
    · rcases List.mem_cons.1 hc with rfl | hc
      · decide
      · exact isInner_of_isDigit (Decimal.isDigit_of_mem_digits hc)

end BindingRegistry.Remote
