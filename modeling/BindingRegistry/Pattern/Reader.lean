import BindingRegistry.Number.Decimal
import BindingRegistry.Pattern

/-!
Reading patterns from their usual written form: alternatives, repetition,
groups with flags, classes with set operations, escapes and named properties.
References to groups and conditions on what surrounds a match are not patterns.
-/
namespace BindingRegistry.Pattern

structure Flags where
  ignoreCase : Bool := false
  multiLine : Bool := false
  dotAll : Bool := false
  crlf : Bool := false
  spaced : Bool := false
  unicode : Bool := true

structure Cursor where
  rest : List Char
  flags : Flags := {}
  names : List (List Char) := []

abbrev Read := StateT Cursor Option

namespace Read

def fail : Read α := fun _ => none

def peek : Read (Option Char) := return (← get).rest.head?

def skip (n : Nat) : Read Unit := modify fun c => { c with rest := c.rest.drop n }

def flags : Read Flags := return (← get).flags

def setFlags (f : Flags) : Read Unit := modify fun c => { c with flags := f }

def next : Read Char := do
  match (← get).rest with
  | [] => fail
  | c :: rest =>
    modify fun s => { s with rest }
    return c

def accept (word : String) : Read Bool := do
  let c ← get
  if c.rest.take word.length = word.toList then
    skip word.length
    return true
  else return false

def afterSpace (fuel : Nat) (cs : List Char) : List Char :=
  match fuel, cs with
  | fuel + 1, c :: rest =>
    if Text.isBlank c then afterSpace fuel rest
    else if c = '#' then afterSpace fuel ((rest.dropWhile (· ≠ '\n')).drop 1)
    else c :: rest
  | _, cs => cs

def space : Read Unit := modify fun c =>
  if c.flags.spaced then { c with rest := afterSpace c.rest.length c.rest } else c

end Read

open Read

/-- A pattern for one character under the settings; beyond ASCII it needs Unicode. -/
def literal (c : Char) : Read Pattern := do
  let f ← flags
  if !f.unicode && 128 ≤ c.toNat then fail
  return .chars (if f.ignoreCase then .folded (.single c) else .single c)

/-- A set under the settings; without Unicode it may not leave ASCII. -/
def charSet (s : CharSet) : Read Pattern := do
  let f ← flags
  if !f.unicode && (List.range 128).any (fun i => s.mem (Char.ofNat (128 + i))) then fail
  return .chars s

/-- Characters with a meaning of their own in patterns. -/
def isMeta (c : Char) : Bool := "\\.+*?()|[]\x7b\x7d^$#&-~".contains c

/-- Whether a character may follow a backslash to stand for itself. -/
def isEscapable (c : Char) : Bool :=
  isMeta c || (c.toNat < 128 && !c.isAlphanum && c ≠ '<' && c ≠ '>')

def hexValue? (c : Char) : Option Nat :=
  if Decimal.isDigit c then some (c.toNat - 48)
  else if 'a' ≤ c.toLower && c.toLower ≤ 'f' then some (c.toLower.toNat - 87)
  else none

def charOfHex (ds : List Char) : Read Char := do
  let some n := ds.foldlM (fun n c => (hexValue? c).map (n * 16 + ·)) 0 | fail
  if ds.isEmpty || 0x110000 ≤ n || (0xd800 ≤ n && n < 0xe000) then fail
  return Char.ofNat n

/-- A character by its number: in braces, or with a fixed count of digits. -/
def hexEscape (count : Nat) : Read Char := do
  space
  if (← peek) = some '\x7b' then
    let c ← get
    let inside := (c.rest.drop 1).takeWhile (· ≠ '\x7d')
    if c.rest.length ≤ inside.length + 1 then fail
    skip (inside.length + 2)
    charOfHex (inside.filter (fun d => !(c.flags.spaced && Text.isBlank d)))
  else
    let ds := (← get).rest.take count
    if ds.length < count then fail
    skip count
    charOfHex ds

/-- A property of characters after its mark: one letter, or a name in braces. -/
def propertyEscape (negated : Bool) : Read CharSet := do
  if !(← flags).unicode then fail
  space
  let c ← next
  let (negated, name) ←
    if c = '\x7b' then do
      let rest := (← get).rest
      let inside := rest.takeWhile (· ≠ '\x7d')
      if rest.length ≤ inside.length then fail
      skip (inside.length + 1)
      let (negated, inside) := match inside with
        | '^' :: inside => (!negated, inside)
        | inside => (negated, inside)
      pure (negated, inside)
    else pure (negated, [c])
  let name := match Text.cutAt? '=' name with
    | some (key, value) =>
      if ["gc", "generalcategory", "general_category"].contains
        (String.ofList (key.map Char.toLower)) then value else name
    | none => name
  let some s := CharSet.property? (String.ofList name) | fail
  let s := if (← flags).ignoreCase then .folded s else s
  return if negated then .complement s else s

inductive Escape where
  | char (c : Char)
  | set (s : CharSet)
  | look (l : Look)

/-- The name of a special word edge in braces, if one comes next. -/
def wordEdge : Read Look := do
  let u := (← flags).unicode
  let rest := (← get).rest
  let isName (c : Char) : Bool := c.isAlpha || c = '-'
  match rest with
  | '\x7b' :: inside =>
    if (inside.head?.map isName).getD false then
      let name := inside.takeWhile isName
      if inside[name.length]? ≠ some '\x7d' then fail
      skip (name.length + 2)
      match String.ofList name with
      | "start" => return .wordStart u
      | "end" => return .wordEnd u
      | "start-half" => return .wordStartHalf u
      | "end-half" => return .wordEndHalf u
      | _ => fail
    else return .wordEdge u
  | _ => return .wordEdge u

def escape : Read Escape := do
  let f ← flags
  let c ← next
  let named (negated : Bool) (unicode ascii : CharSet) : Escape :=
    let s := if f.unicode then unicode else ascii
    .set (if negated then .complement s else s)
  match c with
  | 'x' => return .char (← hexEscape 2)
  | 'u' => return .char (← hexEscape 4)
  | 'U' => return .char (← hexEscape 8)
  | 'p' => return .set (← propertyEscape false)
  | 'P' => return .set (← propertyEscape true)
  | 'd' => return named false .digit .asciiDigit
  | 'D' => return named true .digit .asciiDigit
  | 's' => return named false .space .asciiSpace
  | 'S' => return named true .space .asciiSpace
  | 'w' => return named false .word .asciiWord
  | 'W' => return named true .word .asciiWord
  | 'a' => return .char '\x07'
  | 'f' => return .char '\x0c'
  | 't' => return .char '\t'
  | 'n' => return .char '\n'
  | 'r' => return .char '\r'
  | 'v' => return .char '\x0b'
  | 'A' => return .look .textStart
  | 'z' => return .look .textEnd
  | 'b' => return .look (← wordEdge)
  | 'B' => return .look (.notWordEdge f.unicode)
  | '<' => return .look (.wordStart f.unicode)
  | '>' => return .look (.wordEnd f.unicode)
  | c => if isEscapable c then return .char c else fail

/-- A class of ASCII characters by its name, if one comes next after a bracket: the set, whether
it is negated, and the length of the name with its marks. -/
def asciiClass? (cs : List Char) : Option (CharSet × Bool × Nat) :=
  match cs with
  | '[' :: ':' :: rest =>
    let (negated, name) := match rest with
      | '^' :: rest => (true, rest.takeWhile (· ≠ ':'))
      | rest => (false, rest.takeWhile (· ≠ ':'))
    let length := name.length + (if negated then 3 else 2)
    if cs[length]? = some ':' && cs[length + 1]? = some ']' then
      (CharSet.ascii? (String.ofList name)).map (fun s => (s, negated, length + 2))
    else none
  | _ => none

/-- A set with everything that folds together with a member, where case is ignored. -/
def underCase (s : CharSet) : Read CharSet := do
  return if (← flags).ignoreCase then .folded s else s

/-- A member of a class: one character, or a set by its escape. -/
def classItem : Read (Char ⊕ CharSet) := do
  let c ← next
  if c = '\\' then
    match ← escape with
    | .char c => return .inl c
    | .set s => return .inr s
    | .look _ => fail
  else return .inl c

/-- A member of a class, or a range between two. -/
def classRange : Read CharSet := do
  let first ← classItem
  space
  let rest := (← get).rest
  if rest.isEmpty then fail
  let spaced := (← flags).spaced
  let after := if spaced then Read.afterSpace rest.length (rest.drop 1) else rest.drop 1
  if rest.head? ≠ some '-' || after.head? = some ']' || after.head? = some '-' then
    match first with
    | .inl c => underCase (.single c)
    | .inr s => return s
  else
    skip 1
    space
    let last ← classItem
    match first, last with
    | .inl a, .inl b => if a ≤ b then underCase (.range a b) else fail
    | _, _ => fail

/-- A set operation that is waiting for its right side. -/
structure PendingSet where
  apply : CharSet → CharSet

/-- The members of a class up to its closing bracket. `left` is the operation so far and `items`
what was read of its right side; `depth` bounds the classes inside. -/
def classBody : (fuel : Nat) → (left : PendingSet) → (items : CharSet) → Read CharSet
  | 0, _, _ => fail
  | fuel + 1, left, items => do
    space
    let rest := (← get).rest
    let operation (f : CharSet → CharSet → CharSet) : Read CharSet := do
      skip 2
      classBody fuel ⟨f (left.apply items)⟩ .none
    match rest with
    | [] => fail
    | ']' :: _ =>
      skip 1
      return left.apply items
    | '&' :: '&' :: _ => operation .inter
    | '-' :: '-' :: _ => operation .diff
    | '~' :: '~' :: _ => operation .symmDiff
    | '[' :: _ =>
      match asciiClass? rest with
      | some (s, negated, length) =>
        skip length
        let s ← underCase s
        classBody fuel left (.union items (if negated then .complement s else s))
      | none =>
        skip 1
        space
        let negated ← accept "^"
        let inner ← classStart fuel .none
        let s ← classBody fuel ⟨id⟩ inner
        classBody fuel left (.union items (if negated then .complement s else s))
    | _ =>
      let s ← classRange
      classBody fuel left (.union items s)
where
  /-- Dashes at the beginning of a class, or a closing bracket there, stand for themselves. -/
  classStart : (fuel : Nat) → (items : CharSet) → Read CharSet
    | 0, _ => fail
    | fuel + 1, items => do
      space
      match (← get).rest with
      | [] => fail
      | '-' :: _ =>
        skip 1
        classStart fuel (.union items (.single '-'))
      | ']' :: _ =>
        match items with
        | .none =>
          skip 1
          return .single ']'
        | items => return items
      | _ => return items

def bracketed (fuel : Nat) : Read Pattern := do
  space
  let negated ← accept "^"
  let items ← classBody.classStart fuel .none
  let s ← classBody fuel ⟨id⟩ items
  charSet (if negated then .complement s else s)

def count? : Read (Option Nat) := do
  modify fun c => { c with rest := c.rest.dropWhile Text.isBlank }
  let ds := (← get).rest.takeWhile Decimal.isDigit
  skip ds.length
  modify fun c => { c with rest := c.rest.dropWhile Text.isBlank }
  if ds.isEmpty then return none
  if 4294967295 < Decimal.value ds then fail
  return some (Decimal.value ds)

def bounds : Read (Nat × Option Nat) := do
  space
  let some least ← count? | fail
  if ← accept "\x7d" then return (least, some least)
  if !(← accept ",") then fail
  space
  if ← accept "\x7d" then return (least, none)
  let some most ← count? | fail
  if !(← accept "\x7d") || most < least then fail
  return (least, some most)

/-- The settings in a group's opening, up to the character that ends them. -/
def flagList : (fuel : Nat) → (on : Bool) → (fresh : Bool) → (seen : List Char) → Flags →
    Read (Flags × Char × Bool)
  | 0, _, _, _, _ => fail
  | fuel + 1, on, fresh, seen, f => do
    let c ← next
    if c = ':' || c = ')' then
      if !on && fresh then fail
      return (f, c, seen.isEmpty && on)
    else if c = '-' then
      if !on then fail
      flagList fuel false true seen f
    else if seen.contains c then fail
    else
      let seen := c :: seen
      match c with
      | 'i' => flagList fuel on false seen { f with ignoreCase := on }
      | 'm' => flagList fuel on false seen { f with multiLine := on }
      | 's' => flagList fuel on false seen { f with dotAll := on }
      | 'R' => flagList fuel on false seen { f with crlf := on }
      | 'x' => flagList fuel on false seen { f with spaced := on }
      | 'u' => flagList fuel on false seen { f with unicode := on }
      | 'U' => flagList fuel on false seen f
      | _ => fail

/-- The name of a group up to its closing mark; no two groups share one. -/
def groupName : Read Unit := do
  let c ← get
  let name := c.rest.takeWhile (· ≠ '>')
  let letter (d : Char) : Bool := d = '_' || (CharSet.isWordChar d && !Decimal.isDigit d)
  let inside (d : Char) : Bool := CharSet.isWordChar d || d = '.' || d = '[' || d = ']'
  match name with
  | [] => fail
  | d :: ds =>
    if c.rest.length ≤ name.length || !letter d || !ds.all inside || c.names.contains name then fail
    modify fun c => { c with rest := c.rest.drop (name.length + 1), names := name :: c.names }

inductive Opening where
  | settings
  /-- A group whose inside is read under the settings now in force. -/
  | group

def opening : Read Opening := do
  space
  let rest := (← get).rest
  let startsWith (s : String) : Bool := rest.take s.length = s.toList
  if ["?=", "?!", "?<=", "?<!"].any startsWith then fail
  else if ← accept "?P<" then
    groupName
    return .group
  else if ← accept "?<" then
    groupName
    return .group
  else if ← accept "?" then
    let (f, closing, bare) ← flagList (rest.length + 1) true true [] (← flags)
    if closing = ')' && bare then fail
    setFlags f
    return if closing = ')' then .settings else .group
  else return .group

def dot : Read Pattern := do
  let f ← flags
  if !f.unicode then fail
  return .chars (if f.dotAll then .any
    else if f.crlf then .complement (.union (.single '\n') (.single '\r'))
    else .complement (.single '\n'))

/-- The items of a sequence, last first, in order. -/
def sequence (items : List (Option Pattern)) : Pattern :=
  items.foldl (fun p item => match item, p with
    | none, p => p
    | some q, .empty => q
    | some q, p => .seq q p) .empty

/-- Items and alternatives up to the end of a group or of the text. `done` holds the alternatives
so far and `items` the items of the current one, both last first; an item without a pattern is a
change of settings, which cannot be repeated. -/
def alternatives : (fuel : Nat) → (done : List Pattern) → (items : List (Option Pattern)) →
    Read Pattern
  | 0, _, _ => fail
  | fuel + 1, done, items => do
    space
    let finish : Pattern := done.foldl (fun p q => .alt q p) (sequence items)
    let repeated (least : Nat) (most : Option Nat) : Read Pattern := do
      match items with
      | some p :: before =>
        let _ ← accept "?"
        alternatives fuel done (some (.times least most p) :: before)
      | _ => fail
    let look (multi : Look) (single : Look) : Read Pattern := do
      let l := if (← flags).multiLine then multi else single
      alternatives fuel done (some (.look l) :: items)
    match ← peek with
    | none => return finish
    | some ')' => return finish
    | some c =>
      skip 1
      match c with
      | '|' => alternatives fuel (sequence items :: done) []
      | '*' => repeated 0 none
      | '+' => repeated 1 none
      | '?' => repeated 0 (some 1)
      | '\x7b' =>
        let (least, most) ← bounds
        repeated least most
      | '(' =>
        let around ← flags
        match ← opening with
        | .settings => alternatives fuel done (none :: items)
        | .group =>
          let inside ← alternatives fuel [] []
          if !(← accept ")") then fail
          setFlags around
          alternatives fuel done (some inside :: items)
      | '[' =>
        let p ← bracketed fuel
        alternatives fuel done (some p :: items)
      | '.' =>
        let p ← dot
        alternatives fuel done (some p :: items)
      | '^' => look (.lineStart (← flags).crlf) .textStart
      | '$' => look (.lineEnd (← flags).crlf) .textEnd
      | '\\' =>
        let p ← match ← escape with
          | .char c => literal c
          | .set s => charSet s
          | .look l => pure (.look l)
        alternatives fuel done (some p :: items)
      | c =>
        let p ← literal c
        alternatives fuel done (some p :: items)

def parse? (s : String) : Option Pattern :=
  match (alternatives (2 * s.length + 2) [] []).run { rest := s.toList } with
  | some (p, c) => if c.rest.isEmpty then some p else none
  | none => none

end BindingRegistry.Pattern
