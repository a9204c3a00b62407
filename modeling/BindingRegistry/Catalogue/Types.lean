import BindingRegistry.Param.Ty

/-!
The types a host offers by key, and the names of the objects it exposes.
An object that names no interface of its own is exposed under the short name
of its type: what stands before the first bracket and after the last path mark
of it.
-/
namespace BindingRegistry.Catalogue

def types : List (String × Ty) := [
  ("bool", .bool),
  ("i8", .int .i8), ("i16", .int .i16), ("i32", .int .i32), ("i64", .i64), ("isize", .int .isize),
  ("u8", .int .u8), ("u16", .int .u16), ("u32", .int .u32), ("u64", .int .u64),
  ("usize", .int .usize),
  ("f32", .f32), ("f64", .f64),
  ("string", .string), ("value", .value),
  ("vec_value", .list .value), ("vec_i64", .list .i64), ("vec_u8", .list (.int .u8)),
  ("vec_f64", .list .f64), ("vec_string", .list .string), ("vec_bool", .list .bool),
  ("vec_vec_i64", .list (.list .i64)), ("vec_opt_i64", .list (.option .i64)),
  ("vec_point", .list (.structured .point)), ("vec_time", .list .time),
  ("vec_arc_string", .list (.shared .string)),
  ("map_i64", .hashMap .i64), ("map_string", .hashMap .string), ("map_value", .hashMap .value),
  ("map_vec_i64", .hashMap (.list .i64)),
  ("bmap_f64", .treeMap .f64), ("bmap_bool", .treeMap .bool),
  ("bmap_map_i64", .treeMap (.hashMap .i64)), ("bmap_value", .treeMap .value),
  ("opt_i64", .option .i64), ("opt_f64", .option .f64), ("opt_bool", .option .bool),
  ("opt_string", .option .string), ("opt_vec_i64", .option (.list .i64)),
  ("opt_opt_i64", .option (.option .i64)), ("opt_time", .option .time),
  ("opt_point", .option (.structured .point)), ("opt_map_i64", .option (.hashMap .i64)),
  ("opt_value", .option .value),
  ("arc_string", .shared .string), ("arc_context", .sharedContext),
  ("opt_arc_context", .option .sharedContext),
  ("name", .name), ("caller", .caller),
  ("context", .context), ("session", .host .session), ("user", .user), ("token", .token),
  ("request", .host .request),
  ("time", .time),
  ("point", .structured .point), ("profile", .structured .profile),
  ("caller_json", .structured .caller), ("json_i64", .structured (.whole .i64)),
  ("json_u8", .structured (.whole .u8)), ("json_string", .structured .text),
  ("json_vec_i64", .structured (.sequence (.whole .i64))),
  ("json_opt_i64", .structured (.optional (.whole .i64))),
  ("json_value", .structured .anything),
  ("celsius", .host .celsius), ("unsup", .host .unsupported), ("picky", .host .picky)]

def type? (key : String) : Option Ty := Dict.findIn? key types

/-- What follows the last path mark, or everything if there is none. -/
def afterLastPath (kept : List Char) : List Char → List Char
  | ':' :: ':' :: rest => afterLastPath rest rest
  | _ :: rest => afterLastPath kept rest
  | [] => kept

/-- The short name of the type with the given full name. -/
def shortName (full : String) : String :=
  let head := full.toList.takeWhile (· ≠ '<')
  String.ofList (afterLastPath head head)

/-- The full names of types that are known by name only. -/
def fullNames : List (String × String) := [
  ("i64", Ty.i64.fullName),
  ("str", "str"),
  ("ref_str", "&str"),
  ("unit", "()"),
  ("string", Ty.string.fullName),
  ("vec_i64", (Ty.list .i64).fullName),
  ("map", (Ty.hashMap (.list .i64)).fullName),
  ("tuple", "(i64, alloc::string::String)"),
  ("tuple_vec", "(alloc::vec::Vec<i64>, alloc::string::String)"),
  ("array", "[alloc::string::String; 3]"),
  ("slice", "[alloc::vec::Vec<u8>]"),
  ("fn", "fn(i64) -> alloc::string::String"),
  ("dyn", "dyn core::ops::function::Fn(alloc::string::String) -> alloc::vec::Vec<i64>"),
  ("context", Ty.context.fullName),
  ("generic", "driver::types::Generic<alloc::string::String>"),
  ("nested",
    "driver::types::Outer<driver::types::Generic<alloc::vec::Vec<driver::types::Context>>>"),
  ("option", (Ty.option .sharedContext).fullName),
  ("name", Ty.name.fullName),
  ("ref_generic", "&driver::types::Generic<driver::types::Context>"),
  ("ptr", "*const driver::types::Session"),
  ("dyn_iter",
    "dyn core::iter::traits::iterator::Iterator<Item = driver::types::Context>")]

def fullName? (key : String) : Option String := Dict.findIn? key fullNames

end BindingRegistry.Catalogue
