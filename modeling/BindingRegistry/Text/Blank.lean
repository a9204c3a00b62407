/-!
White space as Unicode defines it, and the two ways text is cut at it:
trimming both ends and splitting into words.
-/
namespace BindingRegistry.Text

/-- The characters with the property White_Space. -/
def isBlank (c : Char) : Bool :=
  let n := c.toNat
  (9 ≤ n && n ≤ 13) || n = 32 || n = 0x85 || n = 0xa0 || n = 0x1680 ||
    (0x2000 ≤ n && n ≤ 0x200a) || n = 0x2028 || n = 0x2029 || n = 0x202f || n = 0x205f ||
    n = 0x3000

def trimList (p : α → Bool) (cs : List α) : List α :=
  ((cs.dropWhile p).reverse.dropWhile p).reverse

def trimChars (cs : List Char) : List Char := trimList isBlank cs

def trim (s : String) : String := String.ofList (trimChars s.toList)

/-- The maximal runs of characters outside `p`, in order. -/
def runsOutside (p : Char → Bool) (cs : List Char) : List (List Char) :=
  match cs with
  | [] => []
  | c :: rest =>
    if p c then runsOutside p rest
    else (c :: rest.takeWhile (fun d => !p d)) :: runsOutside p (rest.dropWhile (fun d => !p d))
termination_by cs.length
decreasing_by
  · simp
  · exact Nat.lt_succ_of_le (List.dropWhile_sublist _).length_le

/-- The words of a text: its maximal runs without white space. -/
def words (cs : List Char) : List (List Char) := runsOutside isBlank cs

/-- The text before the first `sep` and the text after it. -/
def cutAt? (sep : Char) : List Char → Option (List Char × List Char)
  | [] => none
  | c :: rest =>
    if c = sep then some ([], rest)
    else (cutAt? sep rest).map (fun p => (c :: p.1, p.2))

/-- The parts between the characters with property `p`; one part more than there are of these. -/
def splitWhere (p : Char → Bool) : List Char → List (List Char)
  | [] => [[]]
  | c :: rest =>
    if p c then [] :: splitWhere p rest
    else match splitWhere p rest with
      | [] => [[c]]
      | part :: parts => (c :: part) :: parts

/-- Letters in upper case, ASCII letters only. -/
def upperAscii (s : String) : String := String.ofList (s.toList.map Char.toUpper)

/-- Letters in lower case, ASCII letters only. -/
def lowerAscii (s : String) : String := String.ofList (s.toList.map Char.toLower)

end BindingRegistry.Text
