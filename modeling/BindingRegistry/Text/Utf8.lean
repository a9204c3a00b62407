/-!
Texts and their bytes.
Bytes that are not UTF-8 have a text too: each longest run that begins like a
character but is none, and each byte that begins none, stands for one sign.
-/
namespace BindingRegistry.Text

def bytes (s : String) : List UInt8 := s.toUTF8.data.toList

def replacement : Char := '\uFFFD'

/-- A character that has begun: the bits so far, how many bytes follow the next one, and the range
of the next one. -/
structure Begun where
  code : Nat
  further : Nat
  low : Nat
  high : Nat

/-- The character a byte begins that is not its only one. The range of the second byte leaves out
codes with a shorter form, those of surrogates and those above all characters. -/
def begun? (b : Nat) : Option Begun :=
  if 0xc2 ≤ b && b ≤ 0xdf then some ⟨b - 0xc0, 0, 0x80, 0xbf⟩
  else if 0xe0 ≤ b && b ≤ 0xef then
    some ⟨b - 0xe0, 1, if b = 0xe0 then 0xa0 else 0x80, if b = 0xed then 0x9f else 0xbf⟩
  else if 0xf0 ≤ b && b ≤ 0xf4 then
    some ⟨b - 0xf0, 2, if b = 0xf0 then 0x90 else 0x80, if b = 0xf4 then 0x8f else 0xbf⟩
  else none

/-- The characters a byte completes between two of them, and the one it begins. -/
def firstByte (b : Nat) : List Char × Option Begun :=
  if b < 0x80 then ([Char.ofNat b], none)
  else match begun? b with
    | some p => ([], some p)
    | none => ([replacement], none)

def nextByte (b : Nat) : Option Begun → List Char × Option Begun
  | none => firstByte b
  | some p =>
    if p.low ≤ b && b ≤ p.high then
      let code := p.code * 64 + (b - 0x80)
      match p.further with
      | 0 => ([Char.ofNat code], none)
      | n + 1 => ([], some ⟨code, n, 0x80, 0xbf⟩)
    else
      let (cs, p) := firstByte b
      (replacement :: cs, p)

def lossyFrom (p : Option Begun) : List UInt8 → List Char
  | [] => if p.isSome then [replacement] else []
  | b :: bs =>
    let (cs, p) := nextByte b.toNat p
    cs ++ lossyFrom p bs

def lossy (bs : List UInt8) : String := String.ofList (lossyFrom none bs)

end BindingRegistry.Text
