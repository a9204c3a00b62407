import BindingRegistry.Injection
import BindingRegistry.Json.Text

/-!
Typed content shown without loss.
Floats are shown by their bits, options and shared handles with a mark of
their own, and values of host types under the name of their type, so content
of different types or bits is never shown alike within one type.
-/
namespace BindingRegistry

/-- The sixteen digits of the bits of a float; every not-a-number has the same ones. -/
def Binary.bitsText (x : Binary64) : String :=
  let x := if x.isNaN then Binary.nan else x
  String.ofList (Json.hexDigits 16 x.bits)

namespace Ty

def shownFloat (x : Binary64) : Value := .record [("$f", .string x.bitsText)]

def shownHost : (h : HostTy) → h.Denote → Value
  | .celsius, x => shownFloat x
  | .unsupported, a | .picky, a => .integer a.val
  | .context, s | .session, s | .user, s | .token, s | .request, s => .string s

/-- The content of a type as a value to look at. -/
def shown : (t : Ty) → t.Denote → Value
  | bool, b => .bool b
  | int _, a => .integer a.val
  | f32, x => shownFloat (x.convert .double)
  | f64, x => shownFloat x
  | string, s => .string s
  | value, v => v
  | list t, as => .array (as.map t.shown)
  | hashMap t, d => .ofDict (d.map (fun _ a => t.shown a))
  | treeMap t, d => .ofDict (d.map (fun _ a => t.shown a))
  | option t, a => .ofOption (fun a => .record [("some", t.shown a)]) a
  | shared t, a => .record [("arc", t.shown a)]
  | time, i => .string i.text
  | structured s, a => s.write a
  | name, n => .record [("interface", .string n.interface), ("method", .string n.method)]
  | caller, c => c.toValue
  | host h, a => .record [(h.shortName, shownHost h a)]

end Ty

/-- An injected value to look at. -/
def Injected.shown (i : Injected) : Value := i.1.shown i.2

/-- The type names and the values of a set, in the order of the names. -/
def Injections.listing (is : Injections) : List (String × Value) :=
  (is.entries.map fun i => (i.1.fullName, Injected.shown i)).mergeSort (·.1 ≤ ·.1)

end BindingRegistry
