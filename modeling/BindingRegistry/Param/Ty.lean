import BindingRegistry.Name
import BindingRegistry.Param.Schema

/-!
The types of parameters and injected values.
Each type has values, a full name for messages, and a coarse class that stands
for it in signatures. Types are compared exactly: an option of a type, a shared
handle to it and a list of it are types of their own.
-/
namespace BindingRegistry

/-- The coarse class of a type as a weakly typed caller sees it. -/
inductive TypeClass where
  | bool | integer | float | string | array | map | object | unsupported
  deriving DecidableEq, Repr

namespace TypeClass

def name : TypeClass → String
  | bool => "Bool"
  | integer => "Integer"
  | float => "Float"
  | string => "String"
  | array => "Array"
  | map => "Map"
  | object => "Object"
  | unsupported => "Unsupported"

def code : TypeClass → Char
  | bool => 'b'
  | integer => 'i'
  | float => 'f'
  | string => 's'
  | array => 'a'
  | map => 'm'
  | object => 'o'
  | unsupported => '_'

end TypeClass

inductive HostTy where
  | context | session | user | token | request
  | celsius
  /-- A whole number that callers are not told how to send. -/
  | unsupported
  /-- A whole number that is not taken from an injection when it is odd. -/
  | picky
  deriving DecidableEq, Repr

@[reducible] def HostTy.Denote : HostTy → Type
  | context | session | user | token | request => String
  | celsius => Binary64
  | unsupported | picky => Word .i64

def HostTy.shortName : HostTy → String
  | context => "Context"
  | session => "Session"
  | user => "User"
  | token => "Token"
  | request => "Request"
  | celsius => "Celsius"
  | unsupported => "Unsup"
  | picky => "Picky"

inductive Ty where
  | bool
  | int (w : Width)
  | f32
  | f64
  | string
  | value
  | list (item : Ty)
  /-- A map whose order is not part of the type. -/
  | hashMap (item : Ty)
  | treeMap (item : Ty)
  | option (item : Ty)
  /-- A shared handle; callers cannot send one. -/
  | shared (item : Ty)
  | time
  | structured (s : Schema)
  /-- The name of the binding that is called. -/
  | name
  | caller
  | host (h : HostTy)
  deriving DecidableEq, Repr

namespace Ty

abbrev i64 : Ty := int .i64
abbrev context : Ty := host .context
abbrev sharedContext : Ty := shared context
abbrev user : Ty := host .user
abbrev token : Ty := host .token

@[reducible] def Denote : Ty → Type
  | bool => Bool
  | int w => Word w
  | f32 => Binary32
  | f64 => Binary64
  | string => String
  | value => Value
  | list t => List t.Denote
  | hashMap t | treeMap t => Dict t.Denote
  | option t => Option t.Denote
  | shared t => t.Denote
  | time => Time.Instant
  | structured s => s.Denote
  | name => QualifiedName
  | caller => Caller
  | host h => h.Denote

def fullName : Ty → String
  | bool => "bool"
  | int w => w.name
  | f32 => "f32"
  | f64 => "f64"
  | string => "alloc::string::String"
  | value => "serde_json::value::Value"
  | list t => "alloc::vec::Vec<" ++ t.fullName ++ ">"
  | hashMap t =>
    "std::collections::hash::map::HashMap<alloc::string::String, " ++ t.fullName ++ ">"
  | treeMap t =>
    "alloc::collections::btree::map::BTreeMap<alloc::string::String, " ++ t.fullName ++ ">"
  | option t => "core::option::Option<" ++ t.fullName ++ ">"
  | shared t => "alloc::sync::Arc<" ++ t.fullName ++ ">"
  | time => "chrono::datetime::DateTime<chrono::offset::utc::Utc>"
  | structured s => "dynbind_core::param::Json<" ++ s.name ++ ">"
  | name => "dynbind_core::binding::QualifiedName"
  | caller => "dynbind_core::remote::CallerContext"
  | host h => "driver::types::" ++ h.shortName

/-- The coarse class of a type; an option has the class of its content. -/
def coarse : Ty → TypeClass
  | bool => .bool
  | int _ => .integer
  | f32 | f64 => .float
  | string => .string
  | list _ => .array
  | hashMap _ | treeMap _ => .map
  | option t => t.coarse
  | value | shared _ | time | structured _ | name | caller => .object
  | host .celsius => .float
  | host .picky => .integer
  | host .unsupported => .unsupported
  | host _ => .object

/-- The name of a type with the code of its class. -/
def display (t : Ty) : String := t.fullName ++ "(" ++ t.coarse.code.toString ++ ")"

end Ty

/-- The codes of a list of types, one character each. -/
def signatureOf (ts : List Ty) : String := String.ofList (ts.map (·.coarse.code))

end BindingRegistry
