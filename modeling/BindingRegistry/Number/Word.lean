import BindingRegistry.Number.Natural

/-!
Whole numbers of a fixed width.
A word carries the proof that it is in the range of its width. A number of any
size becomes a word by wrapping, which keeps it modulo the width, or by
clamping, which moves it to the nearest bound.
-/
namespace BindingRegistry

/-- The widths of whole numbers; the two machine widths have 64 bits. -/
inductive Width where
  | i8 | i16 | i32 | i64 | isize
  | u8 | u16 | u32 | u64 | usize
  deriving DecidableEq, Repr

namespace Width

def bits : Width → Nat
  | i8 | u8 => 8
  | i16 | u16 => 16
  | i32 | u32 => 32
  | i64 | u64 | isize | usize => 64

def signed : Width → Bool
  | i8 | i16 | i32 | i64 | isize => true
  | u8 | u16 | u32 | u64 | usize => false

def modulus (w : Width) : Int := twoTo w.bits

def least (w : Width) : Int := if w.signed then -twoTo (w.bits - 1) else 0

def greatest (w : Width) : Int := if w.signed then twoTo (w.bits - 1) - 1 else twoTo w.bits - 1

def name : Width → String
  | i8 => "i8"
  | i16 => "i16"
  | i32 => "i32"
  | i64 => "i64"
  | isize => "isize"
  | u8 => "u8"
  | u16 => "u16"
  | u32 => "u32"
  | u64 => "u64"
  | usize => "usize"

theorem modulus_pos (w : Width) : 0 < w.modulus := by cases w <;> decide

theorem greatest_eq (w : Width) : w.greatest = w.least + w.modulus - 1 := by cases w <;> decide

theorem least_le_greatest (w : Width) : w.least ≤ w.greatest := by cases w <;> decide

end Width

structure Word (w : Width) where
  val : Int
  least_le : w.least ≤ val
  le_greatest : val ≤ w.greatest
  deriving DecidableEq

namespace Word

variable {w : Width}

@[ext] theorem ext_val {a b : Word w} (h : a.val = b.val) : a = b := by
  cases a; cases b; cases h; rfl

/-- The word congruent to `n` modulo the width. -/
def wrap (w : Width) (n : Int) : Word w where
  val := (n - w.least) % w.modulus + w.least
  least_le := by
    have h := Int.emod_nonneg (n - w.least) (Int.ne_of_gt w.modulus_pos)
    omega
  le_greatest := by
    have h := Int.emod_lt_of_pos (n - w.least) w.modulus_pos
    have h' := w.greatest_eq
    omega

/-- The word nearest to `n`. -/
def clamp (w : Width) (n : Int) : Word w where
  val := max w.least (min w.greatest n)
  least_le := by omega
  le_greatest := by
    have h := w.least_le_greatest
    omega

/-- The word with value `n`, if `n` is in range. -/
def ofInt? (w : Width) (n : Int) : Option (Word w) :=
  if h : w.least ≤ n ∧ n ≤ w.greatest then some ⟨n, h.1, h.2⟩ else none

instance : Inhabited (Word w) := ⟨wrap w 0⟩

/-- Numbers in range are kept by wrapping. -/
@[simp] theorem wrap_val (a : Word w) : wrap w a.val = a := by
  apply ext_val
  have h₁ := a.least_le
  have h₂ := a.le_greatest
  have h₃ := w.greatest_eq
  simp only [wrap]
  rw [Int.emod_eq_of_lt (by omega) (by omega)]
  omega

def add (a b : Word w) : Word w := wrap w (a.val + b.val)

def mul (a b : Word w) : Word w := wrap w (a.val * b.val)

instance : Add (Word w) := ⟨add⟩
instance : Mul (Word w) := ⟨mul⟩

end Word

end BindingRegistry
