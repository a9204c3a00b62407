import BindingRegistry.Text.Category
import BindingRegistry.Json.Text

/-!
Quoted text for diagnostics.
Characters that could not be read on a page are written by their number:
everything without a glyph of its own, blanks other than the space, and marks
that would join the character before them.
-/
namespace BindingRegistry.Text

/-- Spacing marks and other characters that extend the character before them although they are
not nonspacing marks. -/
def otherExtenders : List (Nat × Nat) := [
  (0x9be, 0x9be), (0x9d7, 0x9d7), (0xb3e, 0xb3e), (0xb57, 0xb57), (0xbbe, 0xbbe), (0xbd7, 0xbd7),
  (0xcc2, 0xcc2), (0xcd5, 0xcd6), (0xd3e, 0xd3e), (0xd57, 0xd57), (0xdcf, 0xdcf), (0xddf, 0xddf),
  (0x1b35, 0x1b35), (0x200c, 0x200c), (0x302e, 0x302f), (0xff9e, 0xff9f), (0x1133e, 0x1133e),
  (0x11357, 0x11357), (0x114b0, 0x114b0), (0x114bd, 0x114bd), (0x115af, 0x115af),
  (0x11930, 0x11930), (0x1d165, 0x1d165), (0x1d16e, 0x1d172), (0xe0020, 0xe007f)]

/-- Whether a character joins the one before it. -/
def isExtender (c : Char) : Bool :=
  let k := category c
  k = .nonspacingMark || k = .enclosingMark ||
    otherExtenders.any (fun r => r.1 ≤ c.toNat && c.toNat ≤ r.2)

/-- Whether a category has no glyph: controls, formats, separators and code points without an
assigned character. -/
def lacksGlyph : Category → Bool
  | .control | .format | .surrogate | .privateUse | .unassigned => true
  | .lineSeparator | .paragraphSeparator | .spaceSeparator => true
  | _ => false

/-- The digits of `n` in base sixteen, without leading zeros. -/
def hexText (n : Nat) : List Char :=
  match (Json.hexDigits 8 n).dropWhile (· = '0') with
  | [] => ['0']
  | ds => ds

def byNumber (c : Char) : List Char := '\\' :: 'u' :: '\x7b' :: hexText c.toNat ++ ['\x7d']

def quoteChar (c : Char) : List Char :=
  if c = '\x00' then ['\\', '0']
  else if c = '\t' then ['\\', 't']
  else if c = '\r' then ['\\', 'r']
  else if c = '\n' then ['\\', 'n']
  else if c = '"' then ['\\', '"']
  else if c = '\\' then ['\\', '\\']
  else if 32 ≤ c.toNat && c.toNat < 127 then [c]
  else if isExtender c || lacksGlyph (category c) then byNumber c
  else [c]

def quote (s : String) : String :=
  "\"" ++ String.ofList (s.toList.flatMap quoteChar) ++ "\""

end BindingRegistry.Text
