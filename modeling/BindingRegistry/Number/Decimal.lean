import BindingRegistry.Number.Binary

/-!
Decimal text of numbers.
Whole numbers have their digits without leading zeros. A binary value is
written either with a fixed count of places, rounded exactly, or with the
fewest digits that still read back as the same word: the coarsest decimal
grid with a point in the interval of values that round to the word, and on
that grid the point nearest to the value.
-/
namespace BindingRegistry.Decimal

def digitChar (d : Nat) : Char := Char.ofNat (48 + d)

def isDigit (c : Char) : Bool := '0' ≤ c && c ≤ '9'

def digitValue (c : Char) : Nat := c.toNat - 48

/-- The digits of `n`, without leading zeros. -/
def digits (n : Nat) : List Char :=
  if n < 10 then [digitChar n] else digits (n / 10) ++ [digitChar (n % 10)]

def value (cs : List Char) : Nat := cs.foldl (fun n c => n * 10 + digitValue c) 0

theorem digitValue_digitChar {d : Nat} (h : d < 10) : digitValue (digitChar d) = d := by
  match d, h with
  | 0, _ | 1, _ | 2, _ | 3, _ | 4, _ | 5, _ | 6, _ | 7, _ | 8, _ | 9, _ => rfl

/-- Digits read back as the number they were written for. -/
theorem value_digits (n : Nat) : value (digits n) = n := by
  induction n using Nat.strongRecOn with
  | ind n ih =>
    unfold digits
    split
    · next h => simp [value, digitValue_digitChar h]
    · next h =>
      have hm := digitValue_digitChar (Nat.mod_lt n (by decide : 0 < 10))
      have ih' := ih (n / 10) (by omega)
      simp only [value] at ih'
      simp only [value, List.foldl_append, List.foldl_cons, List.foldl_nil, ih', hm]
      omega

theorem isDigit_digitChar {d : Nat} (h : d < 10) : isDigit (digitChar d) = true := by
  match d, h with
  | 0, _ | 1, _ | 2, _ | 3, _ | 4, _ | 5, _ | 6, _ | 7, _ | 8, _ | 9, _ => rfl

theorem isDigit_of_mem_digits {n : Nat} {c : Char} (h : c ∈ digits n) : isDigit c = true := by
  induction n using Nat.strongRecOn with
  | ind n ih =>
    unfold digits at h
    split at h
    · next hn =>
      obtain rfl := List.mem_singleton.1 h
      exact isDigit_digitChar hn
    · next hn =>
      rcases List.mem_append.1 h with h | h
      · exact ih (n / 10) (by omega) h
      · obtain rfl := List.mem_singleton.1 h
        exact isDigit_digitChar (Nat.mod_lt n (by decide))

def natText (n : Nat) : String := String.ofList (digits n)

def intText (n : Int) : String :=
  if n < 0 then String.ofList ('-' :: digits n.natAbs) else natText n.natAbs

def zeros (n : Nat) : List Char := List.replicate n '0'

/-- The digits of `n`, filled up with zeros in front to at least `width`. -/
def padded (width n : Nat) : List Char :=
  let ds := digits n
  zeros (width - ds.length) ++ ds

/-- The magnitude of a finite word with `places` digits after the point, ties to even. -/
def fixedMagnitude (places : Nat) (f : FloatFormat) (word : Nat) : List Char :=
  let scaled := roundHalfEven (f.quanta word * tenTo places) (twoTo f.scale)
  let whole := digits (scaled / tenTo places)
  if places = 0 then whole else whole ++ '.' :: padded places (scaled % tenTo places)

/-- A finite value with `places` digits after the point; a minus stands also before zero. -/
def fixed (places : Nat) (x : Binary f) : String :=
  let body := fixedMagnitude places f x.word
  String.ofList (if x.negative then '-' :: body else body)

/-- A decimal number `digits × 10 ^ exponent`. -/
structure Scientific where
  digits : Nat
  exponent : Int
  deriving DecidableEq, Repr

/-- The values that round to a word, in halves of a quantum. -/
structure RoundingInterval where
  low : Nat
  value : Nat
  high : Nat
  closed : Bool

def roundingInterval (f : FloatFormat) (word : Nat) : RoundingInterval where
  low := f.quanta (word - 1) + f.quanta word
  value := 2 * f.quanta word
  high := f.quanta word + f.quanta (word + 1)
  closed := word % 2 = 0

/-- The point of the grid `10 ^ exponent` nearest to the value, if the interval holds one. -/
def gridPoint? (f : FloatFormat) (i : RoundingInterval) (exponent : Int) : Option Nat :=
  let step := tenTo exponent.toNat * twoTo (f.scale + 1)
  let stretch := tenTo (-exponent).toNat
  let below := i.value * stretch / step
  let inside (k : Nat) : Bool :=
    if i.closed then i.low * stretch ≤ k * step && k * step ≤ i.high * stretch
    else i.low * stretch < k * step && k * step < i.high * stretch
  let rest := i.value * stretch - below * step
  match inside below, inside (below + 1) with
  | true, true =>
    if 2 * rest < step then some below
    else if step < 2 * rest then some (below + 1)
    else some (below + below % 2)
  | true, false => some below
  | false, true => some (below + 1)
  | false, false => none

/-- The first grid with a point in the interval, walking from coarse to fine. -/
def coarsest (f : FloatFormat) (i : RoundingInterval) : Nat → Int → Scientific
  | 0, e => ⟨0, e⟩
  | fuel + 1, e =>
    match gridPoint? f i e with
    | some k => ⟨k, e⟩
    | none => coarsest f i fuel (e - 1)

/-- The fewest digits that read back as the unsigned word, for a word above zero. -/
def shortest (f : FloatFormat) (word : Nat) : Scientific :=
  let i := roundingInterval f word
  let top : Int := ((i.high.log2 : Int) - f.scale) * 30103 / 100000 + 1
  coarsest f i (f.fractionBits + 2) top

structure FloatLayout where
  /-- The least decimal exponent of the first digit that is written without an exponent mark. -/
  plainFrom : Int
  /-- The first decimal exponent that needs the mark again. -/
  plainBelow : Int
  /-- Whether a whole number in plain form keeps a zero after the point. -/
  pointZero : Bool
  plusSign : Bool

def plain (layout : FloatLayout) (ds : List Char) (exponent : Int) : List Char :=
  if 0 ≤ exponent then
    ds ++ zeros exponent.toNat ++ (if layout.pointZero then ['.', '0'] else [])
  else
    let places := (-exponent).toNat
    if places < ds.length then
      ds.take (ds.length - places) ++ '.' :: ds.drop (ds.length - places)
    else
      '0' :: '.' :: zeros (places - ds.length) ++ ds

/-- Digits laid out with one digit before the point and an exponent mark. -/
def marked (layout : FloatLayout) (ds : List Char) (lead : Int) : List Char :=
  let mantissa := match ds with
    | d :: rest@(_ :: _) => d :: '.' :: rest
    | ds => ds
  let sign := if lead < 0 then ['-'] else if layout.plusSign then ['+'] else []
  mantissa ++ 'e' :: sign ++ digits lead.natAbs

/-- A finite value in the fewest digits that read back. -/
def shortestText (layout : FloatLayout) (x : Binary f) : String :=
  let body :=
    if x.word = 0 then plain layout ['0'] 0
    else
      let s := shortest f x.word
      let ds := digits s.digits
      let lead := s.exponent + ds.length - 1
      if layout.plainFrom ≤ lead && lead < layout.plainBelow then plain layout ds s.exponent
      else marked layout ds lead
  String.ofList (if x.negative then '-' :: body else body)

/-- The value nearest to `digits × 10 ^ exponent`. Far beyond the format's range the
powers of ten are not computed. -/
def nearest (f : FloatFormat) (negative : Bool) (digits : Nat) (exponent : Int) : Binary f :=
  let reach : Int := f.scale
  if digits = 0 then .zero negative
  else if reach < (digits.log2 : Int) * 30102 / 100000 + exponent then .infinite negative
  else if (digits.log2 : Int) * 30104 / 100000 + 1 + exponent < -reach then .zero negative
  else if 0 ≤ exponent then .nearest f negative (digits * tenTo exponent.toNat * twoTo f.scale) 1
  else .nearest f negative (digits * twoTo f.scale) (tenTo (-exponent).toNat)

end BindingRegistry.Decimal
