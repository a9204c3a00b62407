import BindingRegistry.Number.Decimal

/-!
Binary values in text: an optional sign, decimal digits with an optional point,
and an optional power of ten. Digits may be missing on one side of the point.
Numbers beyond the finite range are not read.
-/
namespace BindingRegistry.FloatText

def exponent? : List Char → Option Int
  | [] => some 0
  | c :: rest =>
    if c = 'e' || c = 'E' then
      let (negative, ds) := match rest with
        | '-' :: ds => (true, ds)
        | '+' :: ds => (false, ds)
        | ds => (false, ds)
      if ds.isEmpty || !ds.all Decimal.isDigit then none
      else some (Binary.signed negative (Decimal.value ds))
    else none

def read? (cs : List Char) : Option Binary64 := do
  let (negative, cs) := match cs with
    | '-' :: rest => (true, rest)
    | '+' :: rest => (false, rest)
    | cs => (false, cs)
  let whole := cs.takeWhile Decimal.isDigit
  let rest := cs.dropWhile Decimal.isDigit
  let (places, rest) := match rest with
    | '.' :: rest => (rest.takeWhile Decimal.isDigit, rest.dropWhile Decimal.isDigit)
    | rest => ([], rest)
  if whole.isEmpty && places.isEmpty then none
  let exponent ← exponent? rest
  let x : Binary64 :=
    Decimal.nearest .double negative (Decimal.value (whole ++ places)) (exponent - places.length)
  if x.isFinite then some x else none

end BindingRegistry.FloatText
