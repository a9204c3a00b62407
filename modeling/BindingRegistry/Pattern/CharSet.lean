import BindingRegistry.Text.Blank
import BindingRegistry.Text.Category
import BindingRegistry.Text.Fold

/-!
Sets of characters as patterns write them: ranges, named classes, and what is
built from sets by union, intersection, difference and complement.
-/
namespace BindingRegistry

inductive CharSet where
  | none
  | any
  | range (low high : Char)
  | space
  /-- Letters, marks, digits and connectors, the characters of words. -/
  | word
  | categories (cs : List Text.Category)
  | complement (s : CharSet)
  | union (s t : CharSet)
  | inter (s t : CharSet)
  | diff (s t : CharSet)
  | symmDiff (s t : CharSet)
  /-- Everything that folds together with a member. -/
  | folded (s : CharSet)

namespace CharSet

/-- Letters in circles and squares, which count as alphabetic though they are symbols. -/
def isEnclosedLetter (n : Nat) : Bool :=
  (0x24b6 ≤ n && n ≤ 0x24e9) || (0x1f130 ≤ n && n ≤ 0x1f149) || (0x1f150 ≤ n && n ≤ 0x1f169) ||
    (0x1f170 ≤ n && n ≤ 0x1f189)

def isWordChar (c : Char) : Bool :=
  if c.toNat < 128 then c.isAlphanum || c = '_'
  else
    let k := Text.category c
    Text.isLetter k || Text.isMark k || k = .letterNumber || k = .decimalNumber ||
      k = .connector || isEnclosedLetter c.toNat || c.toNat = 0x200c || c.toNat = 0x200d

def mem : CharSet → Char → Bool
  | none, _ => false
  | any, _ => true
  | range low high, c => low ≤ c && c ≤ high
  | space, c => Text.isBlank c
  | word, c => isWordChar c
  | categories cs, c => cs.contains (Text.category c)
  | complement s, c => !s.mem c
  | union s t, c => s.mem c || t.mem c
  | inter s t, c => s.mem c && t.mem c
  | diff s t, c => s.mem c && !t.mem c
  | symmDiff s t, c => s.mem c != t.mem c
  | folded s, c => (Text.foldClass c.toNat).any (fun n => s.mem (Char.ofNat n))

def single (c : Char) : CharSet := range c c

def unionAll (ss : List CharSet) : CharSet := ss.foldr union none

def ranges (rs : List (Char × Char)) : CharSet := unionAll (rs.map (fun r => range r.1 r.2))

def digit : CharSet := categories [.decimalNumber]

def asciiDigit : CharSet := range '0' '9'
def asciiSpace : CharSet := ranges [('\t', '\r'), (' ', ' ')]
def asciiWord : CharSet := ranges [('0', '9'), ('A', 'Z'), ('_', '_'), ('a', 'z')]

def ascii? (name : String) : Option CharSet :=
  match name with
  | "alnum" => some (ranges [('0', '9'), ('A', 'Z'), ('a', 'z')])
  | "alpha" => some (ranges [('A', 'Z'), ('a', 'z')])
  | "ascii" => some (range '\x00' '\x7f')
  | "blank" => some (ranges [('\t', '\t'), (' ', ' ')])
  | "cntrl" => some (ranges [('\x00', '\x1f'), ('\x7f', '\x7f')])
  | "digit" => some asciiDigit
  | "graph" => some (range '!' '~')
  | "lower" => some (range 'a' 'z')
  | "print" => some (range ' ' '~')
  | "punct" => some (ranges [('!', '/'), (':', '@'), ('[', '\x60'), ('\x7b', '~')])
  | "space" => some asciiSpace
  | "upper" => some (range 'A' 'Z')
  | "word" => some asciiWord
  | "xdigit" => some (ranges [('0', '9'), ('A', 'F'), ('a', 'f')])
  | _ => Option.none

/-- The categories and their groups under the names a pattern may use, in lower case and without
blanks, dashes and underscores. -/
def groups : List (List String × List Text.Category) := [
  (["l", "letter"],
    [.upperLetter, .lowerLetter, .titleLetter, .modifierLetter, .otherLetter]),
  (["lc", "casedletter"], [.upperLetter, .lowerLetter, .titleLetter]),
  (["lu", "uppercaseletter"], [.upperLetter]),
  (["ll", "lowercaseletter"], [.lowerLetter]),
  (["lt", "titlecaseletter"], [.titleLetter]),
  (["lm", "modifierletter"], [.modifierLetter]),
  (["lo", "otherletter"], [.otherLetter]),
  (["m", "mark", "combiningmark"], [.nonspacingMark, .spacingMark, .enclosingMark]),
  (["mn", "nonspacingmark"], [.nonspacingMark]),
  (["mc", "spacingmark"], [.spacingMark]),
  (["me", "enclosingmark"], [.enclosingMark]),
  (["n", "number"], [.decimalNumber, .letterNumber, .otherNumber]),
  (["nd", "decimalnumber", "digit"], [.decimalNumber]),
  (["nl", "letternumber"], [.letterNumber]),
  (["no", "othernumber"], [.otherNumber]),
  (["p", "punctuation", "punct"],
    [.connector, .dash, .openPunctuation, .closePunctuation, .initialQuote, .finalQuote,
      .otherPunctuation]),
  (["pc", "connectorpunctuation"], [.connector]),
  (["pd", "dashpunctuation"], [.dash]),
  (["ps", "openpunctuation"], [.openPunctuation]),
  (["pe", "closepunctuation"], [.closePunctuation]),
  (["pi", "initialpunctuation"], [.initialQuote]),
  (["pf", "finalpunctuation"], [.finalQuote]),
  (["po", "otherpunctuation"], [.otherPunctuation]),
  (["s", "symbol"], [.mathSymbol, .currencySymbol, .modifierSymbol, .otherSymbol]),
  (["sm", "mathsymbol"], [.mathSymbol]),
  (["sc", "currencysymbol"], [.currencySymbol]),
  (["sk", "modifiersymbol"], [.modifierSymbol]),
  (["so", "othersymbol"], [.otherSymbol]),
  (["z", "separator"], [.spaceSeparator, .lineSeparator, .paragraphSeparator]),
  (["zs", "spaceseparator"], [.spaceSeparator]),
  (["zl", "lineseparator"], [.lineSeparator]),
  (["zp", "paragraphseparator"], [.paragraphSeparator]),
  (["c", "other"], [.control, .format, .surrogate, .privateUse, .unassigned]),
  (["cc", "control", "cntrl"], [.control]),
  (["cf", "format"], [.format]),
  (["co", "privateuse"], [.privateUse]),
  (["cn", "unassigned"], [.unassigned])]

/-- The property named in a pattern, the name compared loosely. -/
def property? (name : String) : Option CharSet :=
  let loose := String.ofList ((name.toList.filter (fun c => c ≠ '_' && c ≠ '-' && c ≠ ' ')).map
    Char.toLower)
  let loose := if loose.startsWith "is" then (loose.drop 2).toString else loose
  match groups.find? (fun g => g.1.contains loose) with
  | some g => some (categories g.2)
  | Option.none =>
    match loose with
    | "any" => some any
    | "ascii" => some (range '\x00' '\x7f')
    | "assigned" => some (complement (categories [.unassigned]))
    | "whitespace" | "wspace" | "space" => some space
    | "alphabetic" | "alpha" =>
      some (diff word (categories [.decimalNumber, .connector, .nonspacingMark, .enclosingMark,
        .format]))
    | "uppercase" | "upper" => some (categories [.upperLetter])
    | "lowercase" | "lower" => some (categories [.lowerLetter])
    | _ => Option.none

end CharSet

end BindingRegistry
