import Mathlib.Algebra.Group.Nat.Defs
import BindingRegistry.Proofs.Text.Joined
import BindingRegistry.Text.Utf8

/-!
The bytes of texts. A character with a smaller code has bytes that differ first
in a smaller one, and none has bytes that another's go on from. So texts stand
in the same order by their characters and by their bytes.
-/
namespace BindingRegistry.Text

open String (utf8EncodeChar)

theorem bytes_eq (s : String) : bytes s = s.toList.flatMap utf8EncodeChar := by
  have h : s.toByteArray = (s.toList.flatMap utf8EncodeChar).toByteArray :=
    String.utf8Encode_toList.symm
  rw [bytes, String.toUTF8, h, List.toList_data_toByteArray]

/-- The last `k` bytes of a code, six bits each. -/
def lowBytes : Nat → Nat → List UInt8
  | 0, _ => []
  | k + 1, code => UInt8.ofNat (code / 64 ^ k % 64 + 128) :: lowBytes k code

/-- How many bytes of a code come after the first one. -/
def more (code : Nat) : Nat :=
  if code ≤ 127 then 0 else if code ≤ 2047 then 1 else if code ≤ 65535 then 2 else 3

def lead (code : Nat) : Nat :=
  if code ≤ 127 then code else if code ≤ 2047 then code / 64 + 192
  else if code ≤ 65535 then code / 4096 + 224 else code / 262144 + 240

section

variable {m n : Nat}

theorem ofNat_lt (h : m < n) (hn : n < 256) : UInt8.ofNat m < UInt8.ofNat n := by
  rw [UInt8.lt_iff_toNat_lt, UInt8.toNat_ofNat', UInt8.toNat_ofNat']
  omega

/-- Codes with the same first bits stand in the order of the bytes for the others. -/
theorem precedes_lowBytes (h : m < n) {k : Nat} (hfirst : m / 64 ^ k = n / 64 ^ k) :
    Precedes (lowBytes k m) (lowBytes k n) := by
  induction k with
  | zero =>
    simp only [Nat.pow_zero, Nat.div_one] at hfirst
    omega
  | succ k ih =>
    rw [Nat.pow_succ, ← Nat.div_div_eq_div_mul, ← Nat.div_div_eq_div_mul] at hfirst
    by_cases hnext : m / 64 ^ k = n / 64 ^ k
    · rw [lowBytes, lowBytes, hnext]
      exact .behind _ (ih hnext)
    · have hle : m / 64 ^ k ≤ n / 64 ^ k := Nat.div_le_div_right (Nat.le_of_lt h)
      exact .here (ofNat_lt (by omega) (by omega)) _ _

theorem lead_lt (h : n < 1114112) : lead n < 256 := by
  simp only [lead]
  split
  · omega
  · split
    · omega
    · split
      · omega
      · omega

/-- The first byte of a code tells how many come after it. -/
theorem lead_lt_or (h : m < n) :
    lead m < lead n ∨ lead m = lead n ∧ more m = more n ∧ m / 64 ^ more m = n / 64 ^ more m := by
  simp only [lead, more]
  split_ifs <;> omega

end

theorem toNat_lt (c : Char) : c.toNat < 1114112 := by
  have hvalid : c.toNat < 55296 ∨ 57343 < c.toNat ∧ c.toNat < 1114112 := c.valid
  omega

theorem utf8EncodeChar_eq (c : Char) :
    utf8EncodeChar c = UInt8.ofNat (lead c.toNat) :: lowBytes (more c.toNat) c.toNat := by
  have hc : c.toNat < 1114112 := toNat_lt c
  have hval : c.val.toNat = c.toNat := rfl
  simp only [utf8EncodeChar, hval, lead, more]
  split_ifs with h₁ h₂ h₃
  · rfl
  · rw [Nat.mod_eq_of_lt (by omega)]
    simp [lowBytes]
  · rw [Nat.mod_eq_of_lt (by omega)]
    simp [lowBytes]
  · rw [Nat.mod_eq_of_lt (by omega)]
    simp [lowBytes]

theorem precedes_utf8EncodeChar {c d : Char} (h : c < d) :
    Precedes (utf8EncodeChar c) (utf8EncodeChar d) := by
  rw [utf8EncodeChar_eq, utf8EncodeChar_eq]
  rcases lead_lt_or (show c.toNat < d.toNat from h) with hlead | ⟨hlead, hmore, hfirst⟩
  · exact .here (ofNat_lt hlead (lead_lt (toNat_lt d))) _ _
  · rw [hlead, ← hmore]
    exact .behind _ (precedes_lowBytes h hfirst)

theorem flatMap_lt {cs ds : List Char} (h : cs < ds) :
    cs.flatMap utf8EncodeChar < ds.flatMap utf8EncodeChar := by
  rcases lt_iff_continued_or_precedes.1 h with ⟨c, x, rfl⟩ | hp
  · rw [List.flatMap_append, List.flatMap_cons, utf8EncodeChar_eq, List.cons_append]
    exact lt_iff_continued_or_precedes.2 (.inl ⟨_, _, rfl⟩)
  · clear h
    refine Precedes.lt ?_
    induction hp with
    | here h as bs => exact (precedes_utf8EncodeChar h).append _ _
    | behind a _ ih =>
      rw [List.flatMap_cons, List.flatMap_cons]
      exact ih.append_left _

/-- The order of texts by their characters is their order by their bytes. -/
theorem bytes_lt_iff {s t : String} : bytes s < bytes t ↔ s < t := by
  have hlt {s t : String} (h : s < t) : bytes s < bytes t := by
    rw [bytes_eq, bytes_eq]
    exact flatMap_lt (String.lt_iff.1 h)
  refine ⟨fun h => ?_, hlt⟩
  rcases Std.lt_trichotomy s t with hst | rfl | hts
  · exact hst
  · exact absurd h (List.lt_irrefl _)
  · exact absurd h (List.lt_asymm (hlt hts))

end BindingRegistry.Text
