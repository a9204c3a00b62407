import BindingRegistry.Json.Text
import BindingRegistry.Number.Decimal
import BindingRegistry.Text.Blank
import BindingRegistry.Text.Fold
import BindingRegistry.Text.Punycode

/-!
Hosts of addresses: domain names, and numeric addresses of both versions in
their one written form.
-/
namespace BindingRegistry.Remote

inductive AddressFault where
  | emptyHost
  | invalidDomain
  | invalidHostCharacter
  | invalidPort
  | invalidIPv4
  | invalidIPv6
  | relative
  deriving DecidableEq, Repr

def AddressFault.message : AddressFault → String
  | .emptyHost => "empty host"
  | .invalidDomain => "invalid international domain name"
  | .invalidHostCharacter => "invalid domain character"
  | .invalidPort => "invalid port number"
  | .invalidIPv4 => "invalid IPv4 address"
  | .invalidIPv6 => "invalid IPv6 address"
  | .relative => "relative URL without a base"

/-- The bytes of a character in UTF-8, each as a percent sign and two digits. -/
def percentBytes (c : Char) : List Char :=
  (String.utf8EncodeChar c).flatMap (fun b =>
    '%' :: (Json.hexDigits 2 b.toNat).map Char.toUpper)

/-- Writes the characters of `cs` that are outside ASCII, controls or in `set` by their bytes. -/
def percentEncode (set : List Char) (cs : List Char) : List Char :=
  cs.flatMap (fun c =>
    if c.toNat < 32 || 126 < c.toNat || set.contains c then percentBytes c else [c])

def hexPair? (a b : Char) : Option Nat := do
  let value? (c : Char) : Option Nat :=
    if Decimal.isDigit c then some (c.toNat - 48)
    else if 'a' ≤ c.toLower && c.toLower ≤ 'f' then some (c.toLower.toNat - 87)
    else none
  return (← value? a) * 16 + (← value? b)

/-- The bytes of a text in which two digits after a percent sign stand for one byte. -/
def percentDecode : List Char → List UInt8
  | '%' :: a :: b :: rest =>
    match hexPair? a b with
    | some n => n.toUInt8 :: percentDecode rest
    | none => 37 :: percentDecode (a :: b :: rest)
  | c :: rest => String.utf8EncodeChar c ++ percentDecode rest
  | [] => []

/-- A number in a part of an IPv4 address: hexadecimal, octal or decimal by how it begins. -/
def ipv4Number? (cs : List Char) : Option Nat :=
  let read (base : Nat) (digit? : Char → Option Nat) (cs : List Char) : Option Nat :=
    cs.foldlM (fun n c => (digit? c).map (n * base + ·)) 0
  let decimal? (c : Char) : Option Nat := if Decimal.isDigit c then some (c.toNat - 48) else none
  let octal? (c : Char) : Option Nat := if '0' ≤ c && c ≤ '7' then some (c.toNat - 48) else none
  let hex? (c : Char) : Option Nat := hexPair? '0' c
  match cs with
  | [] => none
  | '0' :: 'x' :: rest | '0' :: 'X' :: rest => read 16 hex? rest
  | '0' :: rest@(_ :: _) => read 8 octal? rest
  | cs => read 10 decimal? cs

/-- The parts of a domain, without an empty one after a final dot. -/
def domainParts (cs : List Char) : List (List Char) :=
  let parts := Text.splitWhere (· = '.') cs
  if 1 < parts.length && parts.getLast? = some [] then parts.dropLast else parts

def endsInNumber (cs : List Char) : Bool :=
  match (domainParts cs).getLast? with
  | none | some [] => false
  | some part => part.all Decimal.isDigit ||
      (match part with
        | '0' :: x :: _ => x.toLower = 'x' && (ipv4Number? part).isSome
        | _ => false)

/-- The 32-bit number of an IPv4 address; the last part fills the places left over. -/
def ipv4? (cs : List Char) : Option Nat := do
  let parts := domainParts cs
  if 4 < parts.length then none
  let numbers ← parts.mapM ipv4Number?
  let last ← numbers.getLast?
  let leading := numbers.dropLast
  if leading.any (255 < ·) || twoTo (8 * (4 - leading.length)) ≤ last then none
  return sumBy (fun p => p.1 * twoTo (8 * (3 - p.2))) leading.zipIdx + last

def ipv4Text (n : Nat) : List Char :=
  let bytes := [n / twoTo 24, n / twoTo 16 % 256, n / twoTo 8 % 256, n % 256]
  List.intercalate ['.'] (bytes.map Decimal.digits)

/-- The pieces written between colons; a dotted address at the end makes two. -/
def ipv6Pieces? (parts : List (List Char)) : Option (List Nat) :=
  match parts with
  | [] => some []
  | [part] =>
    if part.contains '.' then do
      let bytes := Text.splitWhere (· = '.') part
      let plain (b : List Char) : Bool :=
        !b.isEmpty && b.all Decimal.isDigit && (b.length = 1 || b.head? ≠ some '0') &&
          Decimal.value b ≤ 255
      if bytes.length = 4 && bytes.all plain then
        let n := (bytes.map Decimal.value).foldl (fun n b => n * 256 + b) 0
        some [n / 65536, n % 65536]
      else none
    else (piece? part).map ([·])
  | part :: rest => do
    let n ← piece? part
    return n :: (← ipv6Pieces? rest)
where
  piece? (part : List Char) : Option Nat :=
    if part.isEmpty || 4 < part.length then none
    else part.foldlM (fun n c => (hexPair? '0' c).map (n * 16 + ·)) 0

def cutAtDoubleColon? : List Char → Option (List Char × List Char)
  | ':' :: ':' :: rest => some ([], rest)
  | c :: rest => (cutAtDoubleColon? rest).map (fun p => (c :: p.1, p.2))
  | [] => none

/-- The eight pieces of an IPv6 address; a double colon stands for a run of zeros. -/
def ipv6? (cs : List Char) : Option (List Nat) := do
  let pieces (cs : List Char) : Option (List Nat) :=
    if cs.isEmpty then some [] else ipv6Pieces? (Text.splitWhere (· = ':') cs)
  match cutAtDoubleColon? cs with
  | none =>
    let ps ← pieces cs
    if ps.length = 8 then some ps else none
  | some (front, back) =>
    if front.contains '.' then none
    let front ← pieces front
    let back ← pieces back
    if front.length + back.length ≤ 7 then
      some (front ++ List.replicate (8 - front.length - back.length) 0 ++ back)
    else none

/-- The length of the run of zeros at the front. -/
def zeroRun (ps : List Nat) : Nat := (ps.takeWhile (· = 0)).length

/-- Where the longest run of at least two zeros begins, and its length; the first of equals. -/
def longestZeros (ps : List Nat) : Option (Nat × Nat) :=
  ((List.range 8).map (fun i => (i, zeroRun (ps.drop i)))).foldl
    (fun best r => if 2 ≤ r.2 && best.all (fun b => b.2 < r.2) then some r else best) none

def pieceText (n : Nat) : List Char :=
  match (Json.hexDigits 4 n).dropWhile (· = '0') with
  | [] => ['0']
  | ds => ds

def piecesText (ps : List Nat) : List Char := List.intercalate [':'] (ps.map pieceText)

def ipv6Text (ps : List Nat) : List Char :=
  let body := match longestZeros ps with
    | none => piecesText ps
    | some (i, n) => piecesText (ps.take i) ++ ':' :: ':' :: piecesText (ps.drop (i + n))
  '[' :: body ++ [']']

def forbiddenInDomain (c : Char) : Bool :=
  c.toNat ≤ 32 || c.toNat = 127 || "%#/:<>?@[\\]^\x60\x7b|\x7d".toList.contains c

/-- Whether a character of a domain is passed over: soft hyphens, joiners and selectors. -/
def isIgnoredInDomain (c : Char) : Bool :=
  let n := c.toNat
  n = 0xad || n = 0x34f || n = 0x200b || n = 0x2060 || n = 0xfeff || (0xfe00 ≤ n && n ≤ 0xfe0f)

/-- What a character of a domain is taken for: wide forms of ASCII for ASCII, other full stops
for the usual one, capital letters for small ones. -/
def plainInDomain (c : Char) : Char :=
  let n := c.toNat
  if n = 0x3002 || n = 0xff61 then '.'
  else
    let n := if 0xff01 ≤ n && n ≤ 0xff5e then n - 0xfee0 else n
    Char.ofNat (Text.foldCode n)

def asciiLabel (cs : List Char) : List Char :=
  if cs.all (fun c => c.toNat < 128) then cs else "xn--".toList ++ Text.Punycode.encode cs

/-- The host of an address whose scheme has domain names. -/
def domainHost (cs : List Char) : Except AddressFault (List Char) := do
  if cs.head? = some '[' then
    if cs.getLast? ≠ some ']' then throw .invalidIPv6
    let some ps := ipv6? (cs.drop 1).dropLast | throw .invalidIPv6
    return ipv6Text ps
  let some decoded := String.fromUTF8? ⟨(percentDecode cs).toArray⟩ | throw .invalidDomain
  let cs := (decoded.toList.filter (!isIgnoredInDomain ·)).map plainInDomain
  if cs.any forbiddenInDomain then throw .invalidDomain
  let domain := List.intercalate ['.'] ((Text.splitWhere (· = '.') cs).map asciiLabel)
  if domain.isEmpty then throw .emptyHost
  if endsInNumber domain then
    let some n := ipv4? domain | throw .invalidIPv4
    return ipv4Text n
  return domain

/-- The host of an address with any other scheme: taken as it stands. -/
def opaqueHost (cs : List Char) : Except AddressFault (List Char) := do
  if cs.head? = some '[' then
    if cs.getLast? ≠ some ']' then throw .invalidIPv6
    let some ps := ipv6? (cs.drop 1).dropLast | throw .invalidIPv6
    return ipv6Text ps
  if cs.any (fun c => "\x00\t\n\r #/:<>?@[\\]^|".toList.contains c) then throw .invalidHostCharacter
  return percentEncode [] cs

end BindingRegistry.Remote
