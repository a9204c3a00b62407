import BindingRegistry.Callable
import BindingRegistry.Catalogue.Functions

/-!
Callables of a host that do not follow the conventions of typed functions:
they take more or fewer slots than they declare, or of other types, rearrange
the arguments, or show a signature of their own.
-/
namespace BindingRegistry.Catalogue

/-- A run in a host's world that may end in an error. -/
abbrev Attempt := ExceptT InvokeError (Action World)

def takeNext (cs : Converters) (t : Ty) (args : ArgVector) : Attempt (t.Denote × ArgVector) :=
  ExceptT.mk (Action.ofLogged (args.take cs t))

def wordValue (a : Word .i64) : Value := .integer a.val
def remainingValue (args : ArgVector) : Value := .nat args.remaining

def reversedSignature (visible : List Ty) : String := signatureOf visible.reverse

/-- Takes one slot more than it declares. -/
def greedy : Custom World where
  params := [.i64]
  signature := reversedSignature
  bundle := id
  run cs args _ := ExceptT.run do
    let (a, args) ← takeNext cs .i64 args
    let (b, _) ← takeNext cs .i64 args
    return [wordValue a, wordValue b]

/-- Takes the first of three slots and leaves the others. -/
def lazy : Custom World where
  params := [.i64, .string, .i64]
  signature := reversedSignature
  bundle := id
  run cs args _ := ExceptT.run do
    let (a, rest) ← takeNext cs .i64 args
    return [.array [remainingValue args, wordValue a, remainingValue rest], .string "dropped"]

/-- Takes a text where it declares a shared context. -/
def liar : Custom World where
  params := [.sharedContext, .i64]
  signature := reversedSignature
  bundle := id
  run cs args _ := ExceptT.run do
    let (s, _) ← takeNext cs .string args
    return [.string s]

/-- Assigns the caller's arguments from the last to the first. -/
def reversing : Custom World where
  params := [.i64, .string]
  signature := reversedSignature
  bundle := List.reverse
  run cs args _ := ExceptT.run do
    let (a, args) ← takeNext cs .i64 args
    let (s, _) ← takeNext cs .string args
    return [.array [wordValue a, .string s]]

def spreadItems : Value → List Value
  | .array items => items
  | v => [v]

def spreading : Custom World where
  params := [.i64, .i64]
  signature := reversedSignature
  bundle args := args.flatMap spreadItems
  run cs args _ := ExceptT.run do
    let (a, args) ← takeNext cs .i64 args
    let (b, args) ← takeNext cs .i64 args
    return [.array [wordValue a, wordValue b, remainingValue args]]

/-- Shows how many parameters are visible instead of what they are. -/
def signed : Custom World where
  params := [.i64, .i64]
  signature visible := "<" ++ Decimal.natText visible.length ++ ">"
  bundle := id
  run cs args _ := ExceptT.run do
    let (a, _) ← takeNext cs .i64 args
    return [wordValue a]

def countingInjections : Custom World where
  params := []
  signature := reversedSignature
  bundle := id
  run _ _ injections := return .ok [.nat injections.size]

def customs : List (String × Custom World) := [
  ("greedy", greedy), ("lazy", lazy), ("liar", liar), ("reverse", reversing),
  ("spread", spreading), ("signed", signed), ("none", countingInjections)]

def custom? (key : String) : Option (Custom World) := Dict.findIn? key customs

end BindingRegistry.Catalogue
