import BindingRegistry.Pattern.CharSet

/-!
Patterns on text. A pattern matches from one place of a text to another; the
places it can end at are computed exactly, so matching always ends. A text
satisfies a pattern if some part of it is matched.
-/
namespace BindingRegistry

inductive Look where
  | textStart
  | textEnd
  | lineStart (crlf : Bool)
  | lineEnd (crlf : Bool)
  | wordEdge (unicode : Bool)
  | notWordEdge (unicode : Bool)
  | wordStart (unicode : Bool)
  | wordEnd (unicode : Bool)
  | wordStartHalf (unicode : Bool)
  | wordEndHalf (unicode : Bool)
  deriving DecidableEq, Repr

inductive Pattern where
  | empty
  | chars (s : CharSet)
  | look (l : Look)
  | seq (p q : Pattern)
  | alt (p q : Pattern)
  /-- At least `least` times, and at most `most` times if that is given. -/
  | times (least : Nat) (most : Option Nat) (p : Pattern)

namespace Look

/-- The character before a place and the one after it. -/
def around (text : Array Char) (i : Nat) : Option Char × Option Char :=
  (if i = 0 then none else text[i - 1]?, text[i]?)

def isWord (unicode : Bool) (c : Option Char) : Bool :=
  match c with
  | none => false
  | some c => if unicode then CharSet.word.mem c else CharSet.asciiWord.mem c

def holds (l : Look) (text : Array Char) (i : Nat) : Bool :=
  let (before, after) := around text i
  match l with
  | textStart => i = 0
  | textEnd => i = text.size
  | lineStart false => before.isNone || before = some '\n'
  | lineStart true =>
    before.isNone || before = some '\n' || (before = some '\r' && after ≠ some '\n')
  | lineEnd false => after.isNone || after = some '\n'
  | lineEnd true =>
    after.isNone || after = some '\r' || (after = some '\n' && before ≠ some '\r')
  | wordEdge u => isWord u before != isWord u after
  | notWordEdge u => isWord u before == isWord u after
  | wordStart u => !isWord u before && isWord u after
  | wordEnd u => isWord u before && !isWord u after
  | wordStartHalf u => !isWord u before
  | wordEndHalf u => !isWord u after

end Look

namespace Pattern

def iterate (step : List Nat → List Nat) : (count : Nat) → List Nat → List Nat
  | 0, places => places
  | count + 1, places => iterate step count (step places)

/-- The places reached by at most `count` steps. -/
def within (step : List Nat → List Nat) : (count : Nat) → List Nat → List Nat
  | 0, places => places
  | count + 1, places => within step count (places ++ step places).eraseDups

/-- The places where a match from place `i` can end. Repetition finds no new place after as many
rounds as the text has places. -/
def ends (text : Array Char) : Pattern → Nat → List Nat
  | empty, i => [i]
  | chars s, i =>
    match text[i]? with
    | none => []
    | some c => if s.mem c then [i + 1] else []
  | look l, i => if l.holds text i then [i] else []
  | seq p q, i => ((ends text p i).flatMap (ends text q)).eraseDups
  | alt p q, i => (ends text p i ++ ends text q i).eraseDups
  | times least most p, i =>
    let step (places : List Nat) := (places.flatMap (ends text p)).eraseDups
    let rounds := match most with
      | none => text.size + 1
      | some m => min (m - least) (text.size + 1)
    within step rounds (iterate step least [i])

def matchesSome (p : Pattern) (s : String) : Bool :=
  let text := s.toList.toArray
  (List.range (text.size + 1)).any (fun i => !(ends text p i).isEmpty)

end Pattern

end BindingRegistry
