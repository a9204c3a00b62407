import BindingRegistry.Number.Natural

/-!
Binary floating-point words as exact numbers.
Every finite word is a whole multiple of the format's quantum, its smallest
positive value, so a finite value is a sign and a natural number of quanta.
Arithmetic is exact on quanta and rounds once, to the nearest word with ties
to the even one. No host floating point is involved.
-/
namespace BindingRegistry

/-- The quotient rounded to the nearest whole number, a half going to the even one. -/
def roundHalfEven (num den : Nat) : Nat :=
  let q := num / den
  let r := num % den
  if 2 * r < den then q else if den < 2 * r then q + 1 else q + q % 2

structure FloatFormat where
  fractionBits : Nat
  exponentBits : Nat
  deriving DecidableEq, Repr

namespace FloatFormat

def single : FloatFormat := ⟨23, 8⟩
def double : FloatFormat := ⟨52, 11⟩

/-- The quantum of the format is `2 ^ (-scale)`. -/
def scale (f : FloatFormat) : Nat := twoTo (f.exponentBits - 1) - 2 + f.fractionBits

/-- The least word, sign aside, that is not finite. -/
def infinityWord (f : FloatFormat) : Nat := (twoTo f.exponentBits - 1) * twoTo f.fractionBits

def signWeight (f : FloatFormat) : Nat := twoTo (f.exponentBits + f.fractionBits)

/-- The number of quanta a finite unsigned word stands for. -/
def quanta (f : FloatFormat) (word : Nat) : Nat :=
  let exponent := word / twoTo f.fractionBits
  let fraction := word % twoTo f.fractionBits
  if exponent = 0 then fraction else (twoTo f.fractionBits + fraction) * twoTo (exponent - 1)

/-- The unsigned word nearest to `num / den` quanta; too large values become infinite. -/
def nearestWord (f : FloatFormat) (num den : Nat) : Nat :=
  let shift := (num / den).log2 - f.fractionBits
  min (roundHalfEven num (den * twoTo shift) + shift * twoTo f.fractionBits) f.infinityWord

theorem nearestWord_le (f : FloatFormat) (num den : Nat) :
    f.nearestWord num den ≤ f.infinityWord := Nat.min_le_right ..

theorem infinityWord_lt (f : FloatFormat) : f.infinityWord < f.signWeight := by
  unfold infinityWord signWeight
  rw [twoTo_add]
  have h₁ := twoTo_pos f.exponentBits
  exact Nat.mul_lt_mul_of_pos_right (by omega) (twoTo_pos _)

end FloatFormat

/-- A word of a binary format: a sign and the fields below it. -/
structure Binary (f : FloatFormat) where
  negative : Bool
  word : Nat
  word_lt : word < f.signWeight
  deriving DecidableEq

abbrev Binary32 := Binary .single
abbrev Binary64 := Binary .double

namespace Binary

variable {f g : FloatFormat}

inductive Datum where
  | nan
  | infinite (negative : Bool)
  | finite (negative : Bool) (quanta : Nat)
  deriving DecidableEq, Repr

def datum (x : Binary f) : Datum :=
  if x.word < f.infinityWord then .finite x.negative (f.quanta x.word)
  else if x.word = f.infinityWord then .infinite x.negative
  else .nan

def isFinite (x : Binary f) : Bool := x.word < f.infinityWord
def isNaN (x : Binary f) : Bool := f.infinityWord < x.word

/-- The value nearest to `num / den` quanta with the given sign. -/
def nearest (f : FloatFormat) (negative : Bool) (num den : Nat) : Binary f :=
  ⟨negative, f.nearestWord num den,
    Nat.lt_of_le_of_lt (f.nearestWord_le num den) f.infinityWord_lt⟩

def zero (negative : Bool) : Binary f :=
  ⟨negative, 0, twoTo_pos _⟩

def infinite (negative : Bool) : Binary f :=
  ⟨negative, f.infinityWord, f.infinityWord_lt⟩

/-- The quiet not-a-number without payload: the top fraction bit beside a full exponent. -/
def nan : Binary f :=
  ⟨false, min (f.infinityWord + twoTo (f.fractionBits - 1)) (f.signWeight - 1), by
    have h := f.infinityWord_lt
    exact Nat.lt_of_le_of_lt (Nat.min_le_right ..) (by omega)⟩

instance : Inhabited (Binary f) := ⟨zero false⟩

/-- The value of an exact whole number of quanta; an exact zero takes `zeroSign`. -/
def ofQuanta (zeroSign : Bool) (n : Int) : Binary f :=
  if n = 0 then zero zeroSign else nearest f (n < 0) n.natAbs 1

/-- The whole number `n`, rounded. -/
def ofInt (n : Int) : Binary f := ofQuanta false (n * twoTo f.scale)

def signed (negative : Bool) (n : Nat) : Int := if negative then -n else n

def neg (x : Binary f) : Binary f := { x with negative := !x.negative }

/-- The sum, rounded once. An exact zero is negative only if both terms are. -/
def add (x y : Binary f) : Binary f :=
  match x.datum, y.datum with
  | .nan, _ | _, .nan => nan
  | .infinite a, .infinite b => if a = b then infinite a else nan
  | .infinite a, _ => infinite a
  | _, .infinite b => infinite b
  | .finite a m, .finite b n => ofQuanta (a && b) (signed a m + signed b n)

def sub (x y : Binary f) : Binary f := x.add y.neg

/-- The product, rounded once. -/
def mul (x y : Binary f) : Binary f :=
  match x.datum, y.datum with
  | .nan, _ | _, .nan => nan
  | .infinite a, .infinite b => infinite (a != b)
  | .infinite a, .finite b n => if n = 0 then nan else infinite (a != b)
  | .finite a m, .infinite b => if m = 0 then nan else infinite (a != b)
  | .finite a m, .finite b n => nearest f (a != b) (m * n) (twoTo f.scale)

/-- The quotient, rounded once. -/
def div (x y : Binary f) : Binary f :=
  match x.datum, y.datum with
  | .nan, _ | _, .nan => nan
  | .infinite _, .infinite _ => nan
  | .infinite a, .finite b _ => infinite (a != b)
  | .finite a _, .infinite b => zero (a != b)
  | .finite a m, .finite b n =>
    if n = 0 then (if m = 0 then nan else infinite (a != b))
    else nearest f (a != b) (m * twoTo f.scale) n

def convert (g : FloatFormat) (x : Binary f) : Binary g :=
  match x.datum with
  | .nan => nan
  | .infinite a => infinite a
  | .finite a n => nearest g a (n * twoTo g.scale) (twoTo f.scale)

/-- The integer part brought into `lo .. hi`; not-a-number counts as zero. -/
def clampTo (lo hi : Int) (x : Binary f) : Int :=
  match x.datum with
  | .nan => 0
  | .infinite true => lo
  | .infinite false => hi
  | .finite a n => max lo (min hi (signed a (n / twoTo f.scale)))

/-- The whole word, sign bit first. -/
def bits (x : Binary f) : Nat := (if x.negative then f.signWeight else 0) + x.word

end Binary

end BindingRegistry
