import BindingRegistry.Json.Reader
import BindingRegistry.Json.Text

/-!
The grammar of JSON, apart from any reader: a text is JSON if it is the text of a
tree with blanks around it. Trees keep all that a text can choose, such as blanks,
leading zeros of exponents and the case of hexadecimal digits, and nothing else.

A tree has a value unless a number in it is beyond the finite range or half of a
surrogate pair stands alone in a string. The grammar allows both, and any depth.
-/
namespace BindingRegistry.Json

structure Blanks where
  chars : List Char
  blank : ∀ c ∈ chars, isSpace c = true

structure Digits where
  chars : List Char
  nonempty : chars ≠ []
  digits : ∀ c ∈ chars, Decimal.isDigit c = true

structure Exponent where
  mark : Char
  isMark : isExponentMark mark = true
  /-- No sign, or whether it is a minus. -/
  sign : Option Bool
  digits : Digits

structure Numeral where
  negative : Bool
  whole : Digits
  /-- No zero stands in front of other digits. -/
  plain : whole.chars.head? = some '0' → whole.chars.length = 1
  places : Option Digits
  exponent : Option Exponent

structure HexDigit where
  char : Char
  value : Nat
  reads : hexValue? char = some value

structure CodeUnit where
  first : HexDigit
  second : HexDigit
  third : HexDigit
  fourth : HexDigit

inductive Piece where
  | plain (c : Char) (isPlain : isPlain c = true)
  | short (mark c : Char) (reads : shortEscape? mark = some c)
  | unit (u : CodeUnit)

mutual

inductive Tree where
  | null
  | bool (b : Bool)
  | number (n : Numeral)
  | string (s : List Piece)
  | emptyArray (blanks : Blanks)
  | array (items : Items)
  | emptyObject (blanks : Blanks)
  | object (members : Members)

/-- The items of an array, with a comma before each but the first. -/
inductive Items where
  | last (before : Blanks) (t : Tree) (after : Blanks)
  | more (before : Blanks) (t : Tree) (after : Blanks) (rest : Items)

inductive Members where
  | last (before : Blanks) (key : List Piece) (behindKey before' : Blanks) (t : Tree)
      (after : Blanks)
  | more (before : Blanks) (key : List Piece) (behindKey before' : Blanks) (t : Tree)
      (after : Blanks) (rest : Members)

end

structure Document where
  before : Blanks
  tree : Tree
  after : Blanks

/-! The text of a tree -/

def minusChars (negative : Bool) : List Char := if negative then ['-'] else []

def signChars : Option Bool → List Char
  | none => []
  | some negative => [if negative then '-' else '+']

def Exponent.chars (e : Exponent) : List Char := e.mark :: (signChars e.sign ++ e.digits.chars)

def placesChars : Option Digits → List Char
  | none => []
  | some ds => '.' :: ds.chars

def exponentChars : Option Exponent → List Char
  | none => []
  | some e => e.chars

def Numeral.chars (n : Numeral) : List Char :=
  minusChars n.negative ++ (n.whole.chars ++ (placesChars n.places ++ exponentChars n.exponent))

def CodeUnit.chars (u : CodeUnit) : List Char :=
  [u.first.char, u.second.char, u.third.char, u.fourth.char]

def Piece.chars : Piece → List Char
  | .plain c _ => [c]
  | .short mark _ _ => ['\\', mark]
  | .unit u => '\\' :: 'u' :: u.chars

def quotedChars (s : List Piece) : List Char := '"' :: (s.flatMap Piece.chars ++ ['"'])

mutual

def Tree.chars : Tree → List Char
  | .null => ['n', 'u', 'l', 'l']
  | .bool true => ['t', 'r', 'u', 'e']
  | .bool false => ['f', 'a', 'l', 's', 'e']
  | .number n => n.chars
  | .string s => quotedChars s
  | .emptyArray blanks => '[' :: (blanks.chars ++ [']'])
  | .array items => '[' :: (items.chars ++ [']'])
  | .emptyObject blanks => '\x7b' :: (blanks.chars ++ ['\x7d'])
  | .object members => '\x7b' :: (members.chars ++ ['\x7d'])

def Items.chars : Items → List Char
  | .last before t after => before.chars ++ (t.chars ++ after.chars)
  | .more before t after rest => before.chars ++ (t.chars ++ (after.chars ++ ',' :: rest.chars))

def Members.chars : Members → List Char
  | .last before key behindKey before' t after =>
    before.chars ++ (quotedChars key ++ (behindKey.chars ++ ':' ::
      (before'.chars ++ (t.chars ++ after.chars))))
  | .more before key behindKey before' t after rest =>
    before.chars ++ (quotedChars key ++ (behindKey.chars ++ ':' ::
      (before'.chars ++ (t.chars ++ (after.chars ++ ',' :: rest.chars)))))

end

def Document.chars (d : Document) : List Char := d.before.chars ++ (d.tree.chars ++ d.after.chars)

def Exponent.value (e : Exponent) : Int :=
  Binary.signed (e.sign.getD false) (Decimal.value e.digits.chars)

/-- The value of a number; none beyond the finite range. -/
def Numeral.value? (n : Numeral) : Option Value :=
  numberValue? n.negative n.whole.chars (n.places.map Digits.chars) (n.exponent.map Exponent.value)

def CodeUnit.code (u : CodeUnit) : Nat :=
  ((u.first.value * 16 + u.second.value) * 16 + u.third.value) * 16 + u.fourth.value

/-- The characters of a string; none if half of a pair stands alone. -/
def stringChars? : List Piece → Option (List Char)
  | [] => some []
  | .plain c _ :: s => (stringChars? s).map (c :: ·)
  | .short _ c _ :: s => (stringChars? s).map (c :: ·)
  | .unit u :: s =>
    if isLow u.code then none
    else if isHigh u.code then
      match s with
      | .unit v :: s =>
        if isLow v.code then (stringChars? s).map (pairChar u.code v.code :: ·) else none
      | _ => none
    else (stringChars? s).map (Char.ofNat u.code :: ·)

def stringText? (s : List Piece) : Option String := (stringChars? s).map String.ofList

mutual

def Tree.value? : Tree → Option Value
  | .null => some .null
  | .bool b => some (.bool b)
  | .number n => n.value?
  | .string s => (stringText? s).map .string
  | .emptyArray _ => some (.array [])
  | .array items => items.values?.map .array
  | .emptyObject _ => some (.record [])
  | .object members => members.entries?.map .record

def Items.values? : Items → Option (List Value)
  | .last _ t _ => t.value?.map ([·])
  | .more _ t _ rest => t.value?.bind fun v => rest.values?.map (v :: ·)

def Members.entries? : Members → Option (List (String × Value))
  | .last _ key _ _ t _ => (stringText? key).bind fun k => t.value?.map fun v => [(k, v)]
  | .more _ key _ _ t _ rest =>
    (stringText? key).bind fun k => t.value?.bind fun v => rest.entries?.map ((k, v) :: ·)

end

/-! What a reader may refuse -/

mutual

/-- How deep arrays and objects are nested. -/
def Tree.levels : Tree → Nat
  | .null | .bool _ | .number _ | .string _ => 0
  | .emptyArray _ | .emptyObject _ => 1
  | .array items => items.levels + 1
  | .object members => members.levels + 1

def Items.levels : Items → Nat
  | .last _ t _ => t.levels
  | .more _ t _ rest => max t.levels rest.levels

def Members.levels : Members → Nat
  | .last _ _ _ _ t _ => t.levels
  | .more _ _ _ _ t _ rest => max t.levels rest.levels

end

mutual

def Tree.numerals : Tree → List Numeral
  | .null | .bool _ | .string _ | .emptyArray _ | .emptyObject _ => []
  | .number n => [n]
  | .array items => items.numerals
  | .object members => members.numerals

def Items.numerals : Items → List Numeral
  | .last _ t _ => t.numerals
  | .more _ t _ rest => t.numerals ++ rest.numerals

def Members.numerals : Members → List Numeral
  | .last _ _ _ _ t _ => t.numerals
  | .more _ _ _ _ t _ rest => t.numerals ++ rest.numerals

end

mutual

/-- All strings of a tree, keys among them. -/
def Tree.strings : Tree → List (List Piece)
  | .null | .bool _ | .number _ | .emptyArray _ | .emptyObject _ => []
  | .string s => [s]
  | .array items => items.strings
  | .object members => members.strings

def Items.strings : Items → List (List Piece)
  | .last _ t _ => t.strings
  | .more _ t _ rest => t.strings ++ rest.strings

def Members.strings : Members → List (List Piece)
  | .last _ key _ _ t _ => key :: t.strings
  | .more _ key _ _ t _ rest => key :: (t.strings ++ rest.strings)

end

structure Tree.Fits (t : Tree) : Prop where
  shallow : t.levels ≤ maxDepth
  finite : ∀ n ∈ t.numerals, n.value?.isSome = true
  paired : ∀ s ∈ t.strings, (stringText? s).isSome = true

mutual

/-- A value is missing only for a number or a string in the tree. -/
theorem Tree.isSome_value? : (t : Tree) → (t.value?.isSome = true ↔
    (∀ n ∈ t.numerals, n.value?.isSome = true) ∧ ∀ s ∈ t.strings, (stringText? s).isSome = true)
  | .null | .bool _ | .number _ | .string _ | .emptyArray _ | .emptyObject _ => by
    simp [Tree.value?, Tree.numerals, Tree.strings]
  | .array items => by
    simpa [Tree.value?, Tree.numerals, Tree.strings] using items.isSome_values?
  | .object members => by
    simpa [Tree.value?, Tree.numerals, Tree.strings] using members.isSome_entries?

theorem Items.isSome_values? : (items : Items) → (items.values?.isSome = true ↔
    (∀ n ∈ items.numerals, n.value?.isSome = true) ∧
      ∀ s ∈ items.strings, (stringText? s).isSome = true)
  | .last _ t _ => by
    simpa [Items.values?, Items.numerals, Items.strings] using t.isSome_value?
  | .more _ t _ rest => by
    have ht := t.isSome_value?
    have hrest := rest.isSome_values?
    simp only [Items.values?, Items.numerals, Items.strings, List.forall_mem_append]
    rw [and_and_and_comm, ← ht, ← hrest]
    cases t.value? <;> simp

theorem Members.isSome_entries? : (members : Members) → (members.entries?.isSome = true ↔
    (∀ n ∈ members.numerals, n.value?.isSome = true) ∧
      ∀ s ∈ members.strings, (stringText? s).isSome = true)
  | .last _ key _ _ t _ => by
    have ht := t.isSome_value?
    simp only [Members.entries?, Members.numerals, Members.strings, List.forall_mem_cons]
    rw [and_left_comm, ← ht]
    cases stringText? key <;> simp
  | .more _ key _ _ t _ rest => by
    have ht := t.isSome_value?
    have hrest := rest.isSome_entries?
    simp only [Members.entries?, Members.numerals, Members.strings, List.forall_mem_append,
      List.forall_mem_cons]
    rw [and_left_comm, and_and_and_comm, ← ht, ← hrest]
    cases stringText? key <;> cases t.value? <;> simp

end

end BindingRegistry.Json
