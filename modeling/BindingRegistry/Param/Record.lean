import BindingRegistry.Json.Value
import BindingRegistry.Number.Word

/-!
The records that callers may send as structured values, and what is known of
the caller a forwarded call started from.
-/
namespace BindingRegistry

structure Point where
  x : Word .i64
  y : Word .i64
  deriving DecidableEq

structure Profile where
  name : String
  age : Option (Word .u8)
  tags : List String
  home : Option Point
  deriving DecidableEq

/-- What a transport knows of the caller of a request: it travels with forwarded calls. -/
structure Caller where
  correlationId : Option String := none
  headers : Dict String := .empty
  /-- A cookie of the caller's session, as a name and a value joined by `=`. -/
  sessionCookie : Option String := none
  /-- The name of the forwarding instance. -/
  origin : Option String := none

namespace Value

def ofOption (f : α → Value) : Option α → Value
  | none => null
  | some a => f a

def optionalText : Option String → Value := ofOption string

end Value

def Point.toValue (p : Point) : Value :=
  .record [("x", .integer p.x.val), ("y", .integer p.y.val)]

def Profile.toValue (p : Profile) : Value :=
  .record [("name", .string p.name), ("age", .ofOption (fun a => .integer a.val) p.age),
    ("tags", .strings p.tags), ("home", .ofOption Point.toValue p.home)]

def Caller.toValue (c : Caller) : Value :=
  .record [("correlation_id", .optionalText c.correlationId),
    ("headers", .ofDict (c.headers.map (fun _ v => .string v))),
    ("session_cookie", .optionalText c.sessionCookie), ("origin", .optionalText c.origin)]

end BindingRegistry
