import BindingRegistry.Catalogue.Functions
import BindingRegistry.Catalogue.Given
import BindingRegistry.Registry.Exposure

/-!
The objects of a host, by the key of their type.
An object announces methods or attributes. Objects that change keep their
state in a cell of the world, and all callables made of one object share it.
-/
namespace BindingRegistry.Catalogue

structure Object where
  interface : String
  methods : List (Member World) := []
  getters : List (Member World) := []
  /-- The cell of an object whose number the host can replace. -/
  cell : Option Nat := none

def fixedGetter (name : String) (t : Ty) (a : t.Denote) : Member World :=
  .getter name (.typed t) (return a)

/-- An object around one number, which its methods read and replace. -/
def paramsObject (cell : Nat) : Object where
  interface := "Params"
  methods := [
    .method "SetAndGetParam" ⟨[.i64], .typed .i64, fun (n, _) =>
      Action.onWorld fun w => (n, w.setNumber cell n)⟩,
    .method "GetParam" ⟨[], .typed .i64, fun _ => Action.ask fun w => w.number cell⟩,
    .method "Both" ⟨[], .pair (.typed .i64) (.typed .i64), fun _ =>
      Action.ask fun w => (w.number cell, w.number cell)⟩,
    .method "SetChecked" ⟨[.i64], .result (.typed .i64), fun (n, _) =>
      Action.onWorld fun w =>
        if n.val < 0 then (.error (failure "negative"), w) else (.ok n, w.setNumber cell n)⟩,
    .method "Clear" ⟨[], .nothing, fun _ => Action.change fun w => w.setNumber cell (word 0)⟩]
  cell := some cell

def total (amounts : List (Word .i64)) : Word .i64 := amounts.foldl (· + ·) (word 0)

def deposit (cell : Nat) (n : Word .i64) : Action World (Except Failure (Word .i64)) :=
  Action.onWorld fun w =>
    if n.val ≤ 0 then (.error (failure ("invalid amount " ++ wordText n)), w)
    else
      let amounts := w.ledger cell ++ [n]
      (.ok (total amounts), w.setLedger cell amounts)

def ledgerObject (cell : Nat) : Object where
  interface := "Ledger.v1"
  methods := [
    .method "deposit" ⟨[.i64], .result (.typed .i64), fun (n, _) => deposit cell n⟩,
    .method "Balance" ⟨[], .typed .i64, fun _ => Action.ask fun w => total (w.ledger cell)⟩,
    .method "history" ⟨[], .typed (.list .i64), fun _ => Action.ask fun w => w.ledger cell⟩,
    .method "clear" ⟨[], .nothing, fun _ => Action.change fun w => w.setLedger cell []⟩,
    .method "range" ⟨[], .pair (.typed .i64) (.typed .i64), fun _ =>
      return (word 0, word 0)⟩,
    .method "note" ⟨[.user, .string, .name], .typed .string, fun (u, t, w, _) =>
      return String.intercalate ":" [w.text, u, t, "42"]⟩]

/-- An object that announces one name twice. -/
def plainObject : Object where
  interface := "Plain"
  methods := [.method "answer" (constant .i64 (word 42)),
    .method "answer" (constant .i64 (word 43))]

def genericObject (text : String) : Object where
  interface := "Generic"
  methods := [.method "get" (constant .string text),
    .method "join" ⟨[.string], .typed .string, fun (s, _) => return text ++ s⟩]

/-- An object with a method for every number of parameters up to twelve. -/
def wideObject (start : Word .i64) : Object where
  interface := "wide"
  methods := (List.range 13).map fun n =>
    .method ("m" ++ Decimal.natText n) (weighing start n)

/-- The content of a member, or a default if the member is missing or of another kind. -/
def memberOr (init : Value) (key : String) (t : Ty) (default : t.Denote) : t.Denote :=
  match init.member? key with
  | none => default
  | some v => ((t.decode v).toOption).getD default

def serverObject (init : Value) : Object where
  interface := "Server"
  getters := [
    fixedGetter "host" .string (memberOr init "host" .string "localhost"),
    fixedGetter "port" (.int .u16) (memberOr init "port" (.int .u16) (.wrap .u16 8080)),
    fixedGetter "tags" (.list .string) (memberOr init "tags" (.list .string) []),
    fixedGetter "weight" .f64
      (memberOr init "weight" .f64 (Decimal.nearest .double false 5 (-1))),
    fixedGetter "limits" (.option .i64) (memberOr init "limits" (.option .i64) none)]

def bareObject (v : Value) : Object where
  interface := "Bare"
  getters := [fixedGetter "value" .value v]

/-- An object that counts how often its number is read. -/
def settingsObject (cell : Nat) : Object where
  interface := "Config"
  getters := [
    fixedGetter "name" .string "primary",
    .getter "reads" (.typed .i64) (Action.onWorld fun w =>
      (w.number cell, w.setNumber cell (word ((w.number cell).val + 1)))),
    .getter "pair" (.pair (.typed .i64) (.typed .i64)) (return (word 1, word 2)),
    .getter "broken" (.result (.typed .i64)) (return .error (failure "attribute failed")),
    .getter "nothing" .nothing (return ())]

/-- The whole number a value holds, zero for other values. -/
def numberOf (v : Value) : Word .i64 := ((Ty.decode .i64 v).toOption).getD (word 0)

def withNumber (make : Nat → Object) (init : Value) (w : World) : Object × World :=
  (make w.numbers.length, { w with numbers := w.numbers ++ [numberOf init] })

def withLedger (make : Nat → Object) (w : World) : Object × World :=
  (make w.ledgers.length, { w with ledgers := w.ledgers ++ [[]] })

/-- Makes an object of the type with the given key. -/
def object? (key : String) (init : Value) (w : World) : Option (Object × World) :=
  match key with
  | "Params" => some (withNumber paramsObject init w)
  | "Ledger" => some (withLedger ledgerObject w)
  | "Plain" => some (plainObject, w)
  | "Generic" => some (genericObject ((text? init).getD ""), w)
  | "Wide" => some (wideObject (numberOf init), w)
  | "Server" => some (serverObject init, w)
  | "Bare" => some (bareObject init, w)
  | "Settings" => some (withNumber settingsObject init w)
  | _ => none

end BindingRegistry.Catalogue
