import BindingRegistry.Catalogue.Types
import BindingRegistry.Injection

/-!
Values that a host writes out to have them injected.
Unlike a caller, a host can write a value of any type: a text for the types
that hold one, behind a shared handle or not, the seconds from the epoch for a
time, and a record for a name or a caller.
-/
namespace BindingRegistry.Catalogue

def text? : Value → Option String
  | .string s => some s
  | _ => none

/-- The text under a key, empty if there is none. -/
def textAt (v : Value) (key : String) : String := ((v.member? key).bind text?).getD ""

/-- The headers of a caller: the members that hold a text. -/
def headersOf : Option Value → Dict String
  | some (.object entries) => .ofList (entries.filterMap fun e => (text? e.2).map (e.1, ·))
  | _ => .empty

/-- A caller by the fields that are known of it. -/
def callerOf (v : Value) : Caller where
  correlationId := (v.member? "correlation_id").bind text?
  headers := headersOf (v.member? "headers")
  sessionCookie := (v.member? "session_cookie").bind text?
  origin := (v.member? "origin").bind text?

/-- The content of a type that a value is written out for. -/
def given? : (t : Ty) → Value → Option t.Denote
  | .shared t, v => given? t v
  | .host .context, v | .host .session, v | .host .user, v | .host .token, v
  | .host .request, v => text? v
  | .time, v => match v with
    | .integer seconds => some ⟨seconds, 0⟩
    | _ => none
  | .name, v => some ⟨textAt v "interface", textAt v "method"⟩
  | .caller, v => some (callerOf v)
  | t, v => (t.decode v).toOption

/-- The value written out for the type with the given key. -/
def injected? (key : String) (v : Value) : Option Injected := do
  let t ← type? key
  let a ← given? t v
  some ⟨t, a⟩

end BindingRegistry.Catalogue
