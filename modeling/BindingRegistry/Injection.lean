import BindingRegistry.Param.Decode
import BindingRegistry.TypeMap

/-!
Injections: values that reach a callable by their type instead of by their
position. A set holds at most one value a type; where sets are merged, later
ones win.
-/
namespace BindingRegistry

abbrev Injected := Keyed Ty.Denote

/-- A set of injected values, one a type. -/
abbrev Injections := TypeMap Ty.Denote

def Injected.cast? (i : Injected) (t : Ty) : Option t.Denote :=
  if h : i.1 = t then some (h ▸ i.2) else none

def sortedNames (ts : List Ty) : List String := (ts.map Ty.fullName).mergeSort (· ≤ ·)

def typeSetText (ts : List Ty) : String :=
  "\x7b" ++ String.intercalate ", " ((sortedNames ts).map Text.quote) ++ "\x7d"

end BindingRegistry
