import BindingRegistry.Number.Decimal
import BindingRegistry.Number.Word

/-!
Whole numbers in text: an optional sign and decimal digits, nothing else.
The digits are taken one by one and the first fault counts, so a number that
has already grown too large is refused before a later stray character is seen.
-/
namespace BindingRegistry.Signed

inductive Fault where
  | empty
  | invalidDigit
  | tooLarge
  | tooSmall
  deriving DecidableEq, Repr

def Fault.message : Fault → String
  | .empty => "cannot parse integer from empty string"
  | .invalidDigit => "invalid digit found in string"
  | .tooLarge => "number too large to fit in target type"
  | .tooSmall => "number too small to fit in target type"

/-- Takes digits after `n`, away from zero on the side of the sign. -/
def take (negative : Bool) (n : Int) : List Char → Except Fault Int
  | [] => .ok n
  | c :: rest =>
    if Decimal.isDigit c then
      let d : Int := Decimal.digitValue c
      let n := if negative then n * 10 - d else n * 10 + d
      if n < Width.i64.least then .error .tooSmall
      else if Width.i64.greatest < n then .error .tooLarge
      else take negative n rest
    else .error .invalidDigit

def read (cs : List Char) : Except Fault Int :=
  match cs with
  | [] => .error .empty
  | ['+'] | ['-'] => .error .invalidDigit
  | '+' :: rest => take false 0 rest
  | '-' :: rest => take true 0 rest
  | cs => take false 0 cs

end BindingRegistry.Signed
