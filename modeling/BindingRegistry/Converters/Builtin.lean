import BindingRegistry.Converters

/-!
The converters a registry starts with: any value as text, and numbers or texts
as points in time.
-/
namespace BindingRegistry

/-- Any value as text: texts as they are, floats with six places, everything else as written. -/
def Value.plainText : Value → String
  | .string s => s
  | .float x => Decimal.fixed 6 x
  | v => Json.text v

namespace Converters

def stringConverter : Converter := fun v => .ok ⟨.string, v.plainText⟩

def timeConverter : Converter := fun v =>
  match Time.ofValue v with
  | .ok t => .ok ⟨.time, t⟩
  | .error e => .error { message := e.message }

def install (cs : Converters) : Logged Converters := do
  let cs ← cs.register .string stringConverter
  cs.register .time timeConverter

end Converters

end BindingRegistry
