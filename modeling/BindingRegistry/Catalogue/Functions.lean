import BindingRegistry.Callable
import BindingRegistry.Catalogue.Shown
import BindingRegistry.Catalogue.Types
import BindingRegistry.Catalogue.World

/-!
The functions a host offers by key. Whole numbers wrap around at sixty-four
bits. A function that echoes a type gives its argument back as it is written,
or, for the types where that would lose something, as it is shown.
-/
namespace BindingRegistry.Catalogue

def word (n : Int) : Word .i64 := .wrap .i64 n
def wordText (a : Word .i64) : String := Decimal.intText a.val
def boolText (b : Bool) : String := if b then "true" else "false"
def joined (parts : List String) : String := String.intercalate "/" parts

/-- The keys of types that are echoed as they are written. -/
def writtenKeys : List String := [
  "bool", "i8", "i16", "i32", "i64", "isize", "u8", "u16", "u32", "u64", "usize", "f32", "f64",
  "string", "value", "time", "vec_i64", "vec_value", "vec_point", "map_i64", "bmap_f64",
  "opt_i64", "opt_f64", "opt_string", "opt_time", "point", "profile", "json_i64", "caller_json"]

def echoWritten (t : Ty) : Operation World where
  params := [t]
  returns := .typed t
  run := fun (a, _) => return a

def echoShown (t : Ty) : Operation World where
  params := [t]
  returns := .typed .value
  run := fun (a, _) => return t.shown a

/-- The function that echoes the type with the given key. -/
def echo? (key : String) : Option (Operation World) :=
  (type? key).map fun t => if writtenKeys.contains key then echoWritten t else echoShown t

/-- Takes numbers as digits in base three, after those that make up `acc`. -/
def weigh (acc : Word .i64) : (n : Nat) → Args (List.replicate n .i64) → Word .i64
  | 0, _ => acc
  | n + 1, (a, rest) => weigh (word (acc.val * 3 + a.val)) n rest

def weighing (start : Word .i64) (n : Nat) : Operation World where
  params := List.replicate n .i64
  returns := .typed .i64
  run args := return weigh start n args

def constant (t : Ty) (a : t.Denote) : Operation World where
  params := []
  returns := .typed t
  run _ := return a

def unwritable (reason : String) : Operation World where
  params := []
  returns := .one .structured
  run _ := return .error reason

def failure (text : String) : Failure := { message := text }

/-- The quotient toward zero, unless the divisor is zero or the quotient is out of range. -/
def quotient? (a b : Word .i64) : Option (Word .i64) :=
  if b.val = 0 then none else Word.ofInt? .i64 (a.val.tdiv b.val)

def arithmetic : List (String × Operation World) := [
  ("add", ⟨[.i64, .i64], .typed .i64, fun (a, b, _) => return a + b⟩),
  ("addf", ⟨[.f64, .f64], .typed .f64, fun (a, b, _) => return a.add b⟩),
  ("neg", ⟨[.f64], .typed .f64, fun (a, _) => return a.neg⟩),
  ("checked", ⟨[.i64], .result (.typed .i64), fun (a, _) =>
    pure (if a.val < 0 then .error (failure "negative") else .ok a)⟩),
  ("div", ⟨[.i64, .i64], .result (.typed .i64), fun (a, b, _) => pure (match quotient? a b with
    | some q => .ok q
    | none => .error (failure "division by zero or overflow"))⟩),
  ("point_add", ⟨[.structured .point, .structured .point], .typed (.structured .point),
    fun (a, b, _) => return ⟨a.x + b.x, a.y + b.y⟩⟩),
  ("millis", ⟨[.time], .typed .i64, fun (t, _) => return word t.millis⟩),
  ("args_len", ⟨[.list .value, .i64], .typed .i64, fun (as, n, _) =>
    return word (as.length + n.val)⟩),
  ("picky2", ⟨[.host .picky, .i64], .typed .i64, fun (p, n, _) => return p + n⟩)]

def texts : List (String × Operation World) := [
  ("concat", ⟨[.string, .string], .typed .string, fun (a, b, _) => return a ++ b⟩),
  ("len_string", ⟨[.string], .typed .i64, fun (s, _) => return word s.utf8ByteSize⟩),
  ("opts", ⟨[.option .i64, .option .string], .typed .string, fun (a, b, _) =>
    return joined [(a.map wordText).getD "-", b.getD "-"]⟩),
  ("mixed6", ⟨[.bool, .i64, .f64, .string, .list .value, .hashMap .i64], .typed .string,
    fun (a, b, c, d, e, f, _) => return joined [boolText a, wordText b, c.bitsText, d,
      Decimal.natText e.length, wordText (f.values.foldl (· + ·) (word 0))]⟩)]

def injecting : List (String × Operation World) := [
  ("greet", ⟨[.i64, .i64, .sharedContext], .typed .string, fun (a, b, c, _) =>
    return c ++ ":" ++ wordText (a + b)⟩),
  ("twice", ⟨[.sharedContext, .sharedContext, .i64], .typed .string, fun (a, b, n, _) =>
    return a ++ "|" ++ b ++ "|" ++ wordText n⟩),
  ("who", ⟨[.name], .typed .string, fun (n, _) => return n.text⟩),
  ("whon", ⟨[.name, .i64, .name], .typed .string, fun (n, i, m, _) =>
    return joined [n.text, wordText i, m.method]⟩),
  ("origin", ⟨[.caller, .i64], .typed .string, fun (c, n, _) =>
    return joined [c.origin.getD "", wordText n]⟩),
  ("caller_dump", ⟨[.caller], .typed .value, fun (c, _) => return c.toValue⟩),
  ("user", ⟨[.user], .typed .string, fun (u, _) => return u⟩),
  ("session", ⟨[.shared .string, .i64], .typed .string, fun (s, n, _) =>
    return s ++ "#" ++ wordText n⟩),
  ("interleave", ⟨[.i64, .user, .string, .sharedContext, .bool, .user], .typed .string,
    fun (a, u, b, c, d, v, _) => return joined [wordText a, u, b, c, boolText d, v]⟩)]

/-- Functions that refuse, or give none or several values. -/
def shapes : List (String × Operation World) := [
  ("unit_checked", ⟨[.bool], .result .nothing, fun (b, _) =>
    pure (if b then .ok () else .error (failure "not ok"))⟩),
  ("pair_checked", ⟨[.bool], .result (.pair (.typed .i64) (.typed .i64)), fun (b, _) =>
    pure (if b then .ok (word 1, word 2) else .error (failure "no pair"))⟩),
  ("deep_checked", ⟨[.i64], .result (.result (.typed .i64)), fun (n, _) =>
    pure (if n.val = 0 then .error (failure "outer")
      else if n.val = 1 then .ok (.error (failure "inner"))
      else .ok (.ok n))⟩),
  ("fail_convert", ⟨[.value], .result (.typed .i64), fun (v, _) =>
    return (Ty.decode .i64 v).mapError ConvertError.toFailure⟩),
  ("pair", ⟨[.i64], .pair (.typed .i64) (.typed .i64), fun (a, _) =>
    return (a, word (a.val * 10))⟩),
  ("triple", ⟨[.string, .bool], .triple (.typed .string) (.typed .bool) (.typed .value),
    fun (a, b, _) => return (a, b, .null)⟩),
  ("quad", ⟨[.i64],
    .quad (.typed (.option .i64)) (.typed .i64) (.typed .string) (.typed (.list .i64)),
    fun (a, _) => return (some a, a, "x", [a])⟩),
  ("touch", ⟨[], .nothing, fun _ => Action.change fun w => { w with touched := w.touched + 1 }⟩),
  ("touched", ⟨[], .typed .i64, fun _ => Action.ask fun w => word w.touched⟩)]

def constants : List (String × Operation World) := [
  ("str", constant .string "static"),
  ("nan", constant .f64 Binary.nan),
  ("inf32", constant .f32 (Binary.infinite false)),
  ("third32", constant .f32 (Decimal.nearest .single false 1 (-1))),
  ("zero_neg", constant .f64 (Binary.zero true)),
  ("hashmap", constant .value (.record [("a", .null), ("b", .integer 1)])),
  ("btreemap", constant .value (.record [("k", .array [.array [.integer 1, .string "x"]])])),
  ("none", constant (.option .i64) none),
  ("bad_key", unwritable "key must be a string"),
  ("bad_second", ⟨[], .pair (.typed .i64) .structured, fun _ =>
    return (word 1, .error "key must be a string")⟩),
  ("bad_u128", unwritable "number out of range"),
  ("int_keys", constant .value
    (.record [("-5", .string "m"), ("9", .string "n"), ("10", .string "t")])),
  ("max_u64", constant (.int .u64) (.wrap (.u64) (-1)))]

def sums : List (String × Operation World) :=
  (List.range 13).map fun n => ("sum" ++ Decimal.natText n, weighing (word 0) n)

def function? (key : String) : Option (Operation World) :=
  if key.startsWith "echo:" then echo? (String.ofList (key.toList.drop 5))
  else Dict.findIn? key (arithmetic ++ texts ++ injecting ++ shapes ++ constants ++ sums)

/-- A handler: the type it reads and what it makes of it. -/
def handlers : List (String × Callable World) := [
  ("path", .handler (.host .request) (.typed .string) fun p => return p),
  ("who", .handler .name (.typed .string) fun n => return n.text),
  ("context", .handler .sharedContext (.typed .string) fun c => return c),
  ("i64", .handler .i64 (.typed .i64) fun n => return word (n.val + 1)),
  ("fail", .handler (.host .request) (.result (.typed .string)) fun p =>
    return .error (failure p)),
  ("unit", .handler (.host .request) .nothing fun _ => return ()),
  ("pair", .handler (.host .request) (.pair (.typed .i64) (.typed .string)) fun p =>
    return (word p.utf8ByteSize, p))]

def handler? (key : String) : Option (Callable World) := Dict.findIn? key handlers

end BindingRegistry.Catalogue
