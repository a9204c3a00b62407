/-!
Punycode: text of any characters in letters, digits and dashes.
The plain characters come first; the others follow as differences, in
ascending order of code point, each written with as few base-36 digits as its
size asks for under a bias that adapts to what came before.
-/
namespace BindingRegistry.Text.Punycode

def digitChar (d : Nat) : Char := if d < 26 then Char.ofNat (97 + d) else Char.ofNat (22 + d)

/-- How often a difference is divided down before the bias is read off. -/
def divideDown : (fuel k delta : Nat) → Nat × Nat
  | 0, k, delta => (k, delta)
  | fuel + 1, k, delta =>
    if 455 < delta then divideDown fuel (k + 36) (delta / 35) else (k, delta)

def adapt (delta points : Nat) (first : Bool) : Nat :=
  let delta := if first then delta / 700 else delta / 2
  let (k, delta) := divideDown 64 0 (delta + delta / points)
  k + 36 * delta / (delta + 38)

def threshold (k bias : Nat) : Nat :=
  if k ≤ bias then 1 else if bias + 26 ≤ k then 26 else k - bias

theorem threshold_pos (k bias : Nat) : 0 < threshold k bias := by
  unfold threshold
  split
  · decide
  · split <;> omega

theorem threshold_le (k bias : Nat) : threshold k bias ≤ 26 := by
  unfold threshold
  split
  · decide
  · split <;> omega

/-- A difference in digits of varying base, least first. -/
def differenceDigits (bias k q : Nat) : List Char :=
  let t := threshold k bias
  if q < t then [digitChar q]
  else digitChar (t + (q - t) % (36 - t)) :: differenceDigits bias (k + 36) ((q - t) / (36 - t))
termination_by q
decreasing_by
  have hpos := threshold_pos k bias
  have hle : (q - threshold k bias) / (36 - threshold k bias) ≤ q - threshold k bias :=
    Nat.div_le_self _ _
  omega

structure State where
  delta : Nat
  bias : Nat
  handled : Nat
  output : List Char

/-- Passes over the text once for the code point `n`, writing a difference at each place it
stands. -/
def passFor (n basic : Nat) (cs : List Char) (s : State) : State :=
  cs.foldl (fun s c =>
    if c.toNat < n then { s with delta := s.delta + 1 }
    else if c.toNat = n then
      { delta := 0
        bias := adapt s.delta (s.handled + 1) (s.handled = basic)
        handled := s.handled + 1
        output := s.output ++ differenceDigits s.bias 36 s.delta }
    else s) s

/-- Handles the code points of `todo`, which ascend; `n` is the least not yet handled. -/
def encodeRest (basic : Nat) (cs : List Char) : (todo : List Nat) → (n : Nat) → State → State
  | [], _, s => s
  | m :: todo, n, s =>
    let s := { s with delta := s.delta + (m - n) * (s.handled + 1) }
    let s := passFor m basic cs s
    encodeRest basic cs todo (m + 1) { s with delta := s.delta + 1 }

def encode (cs : List Char) : List Char :=
  let basic := cs.filter (fun c => c.toNat < 128)
  let others := ((cs.filter (fun c => 128 ≤ c.toNat)).map Char.toNat).eraseDups.mergeSort (· ≤ ·)
  let start := if basic.isEmpty then [] else basic ++ ['-']
  (encodeRest basic.length cs others 128 ⟨0, 72, basic.length, start⟩).output

end BindingRegistry.Text.Punycode
