import BindingRegistry.Remote.Host

/-!
Absolute addresses in their one written form.
Reading brings scheme and host to lower case, drops the port that the scheme
implies, resolves dots in the path and writes what may not stand in an address
by its bytes. Schemes of the web have a host and a path in every address.
-/
namespace BindingRegistry.Remote

structure Authority where
  userinfo : List Char := []
  host : List Char
  port : Option Nat := none
  deriving DecidableEq, Repr

structure Url where
  scheme : List Char
  authority : Option Authority
  path : List Char
  query : Option (List Char)
  fragment : Option (List Char)
  deriving DecidableEq, Repr

namespace Url

def authorityText (a : Authority) : List Char :=
  let user := if a.userinfo.isEmpty then [] else a.userinfo ++ ['@']
  let port := match a.port with
    | none => []
    | some p => ':' :: Decimal.digits p
  '/' :: '/' :: user ++ a.host ++ port

def optionalPart (mark : Char) : Option (List Char) → List Char
  | none => []
  | some cs => mark :: cs

def chars (u : Url) : List Char :=
  u.scheme ++ ':' :: (match u.authority with
    | some a => authorityText a
    | none => []) ++ u.path ++ optionalPart '?' u.query ++ optionalPart '#' u.fragment

def text (u : Url) : String := String.ofList u.chars

/-- The port that a scheme of the web implies; no port for schemes without one. -/
def defaultPort? (scheme : String) : Option Nat :=
  if scheme = "http" || scheme = "ws" then some 80
  else if scheme = "https" || scheme = "wss" then some 443
  else if scheme = "ftp" then some 21
  else none

/-- Whether addresses with the scheme have a host that is a domain. -/
def isWebScheme (scheme : String) : Bool := (defaultPort? scheme).isSome || scheme = "file"

def fragmentSet : List Char := [' ', '"', '<', '>', '\x60']
def pathSet : List Char := fragmentSet ++ ['#', '?', '\x7b', '\x7d']
def querySet : List Char := [' ', '"', '#', '<', '>']
def userinfoSet : List Char := pathSet ++ ['/', ':', ';', '=', '@', '[', '\\', ']', '^', '|']

/-- The text without blanks at its ends and without tabs and line ends. -/
def cleaned (cs : List Char) : List Char :=
  (Text.trimList (fun c => c.toNat ≤ 32) cs).filter
    (fun c => c ≠ '\t' && c ≠ '\n' && c ≠ '\r')

def isSchemeChar (c : Char) : Bool :=
  c.isAlpha || Decimal.isDigit c || c = '+' || c = '-' || c = '.'

/-- The scheme in lower case, and what follows its colon. -/
def takeScheme? (cs : List Char) : Option (List Char × List Char) :=
  match cs with
  | [] => none
  | c :: _ =>
    if c.isAlpha then
      match cs.dropWhile isSchemeChar with
      | ':' :: rest => some ((cs.takeWhile isSchemeChar).map Char.toLower, rest)
      | _ => none
    else none

def endsAuthority (web : Bool) (c : Char) : Bool :=
  c = '/' || c = '?' || c = '#' || (web && c = '\\')

/-- The texts before and after the last `@`. -/
def cutAtLastAt? (cs : List Char) : Option (List Char × List Char) :=
  match Text.cutAt? '@' cs.reverse with
  | some (after, before) => some (before.reverse, after.reverse)
  | none => none

/-- Name and password, each written by bytes where needed; an empty password has no colon. -/
def userinfoText (cs : List Char) : List Char :=
  match Text.cutAt? ':' cs with
  | none => percentEncode userinfoSet cs
  | some (name, []) => percentEncode userinfoSet name
  | some (name, password) =>
    percentEncode userinfoSet name ++ ':' :: percentEncode userinfoSet password

/-- Name and password at the front, in their written form, and what follows them. -/
def takeUser (cs : List Char) : List Char × List Char :=
  match cutAtLastAt? cs with
  | none => ([], cs)
  | some (user, rest) => (userinfoText user, rest)

/-- The host at the front: up to a colon outside brackets. -/
def takeHost (inBrackets : Bool) : List Char → List Char × List Char
  | [] => ([], [])
  | c :: rest =>
    if c = ':' && !inBrackets then ([], c :: rest)
    else
      let r := takeHost (if c = '[' then true else if c = ']' then false else inBrackets) rest
      (c :: r.1, r.2)

/-- The port after a colon, unless the scheme implies it. -/
def portOf (scheme : String) (cs : List Char) : Except AddressFault (Option Nat) :=
  match cs with
  | [] => .ok none
  | _ :: digits =>
    if digits.all Decimal.isDigit then
      if digits.isEmpty then .ok none
      else if 65535 < Decimal.value digits then .error .invalidPort
      else if defaultPort? scheme = some (Decimal.value digits) then .ok none
      else .ok (some (Decimal.value digits))
    else .error .invalidPort

def authorityOf (scheme : String) (cs : List Char) : Except AddressFault Authority := do
  let web := isWebScheme scheme
  let (userinfo, rest) := takeUser cs
  let (host, port) := takeHost false rest
  if host.isEmpty && (web || !port.isEmpty) then throw .emptyHost
  let host ← if web then domainHost host else opaqueHost host
  let port ← portOf scheme port
  return { userinfo, host, port }

/-- Whether a segment stands for the directory it is in; dots may be written by their bytes. -/
def isDot (cs : List Char) : Bool :=
  let s := String.ofList (cs.map Char.toLower)
  s = "." || s = "%2e"

def isDoubleDot (cs : List Char) : Bool :=
  let s := String.ofList (cs.map Char.toLower)
  s = ".." || s = ".%2e" || s = "%2e." || s = "%2e%2e"

/-- The segments of a path with dots resolved, in reverse before `acc`. -/
def resolveDots (acc : List (List Char)) : List (List Char) → List (List Char)
  | [] => acc.reverse
  | [seg] =>
    if isDoubleDot seg then ([] :: acc.drop 1).reverse
    else if isDot seg then ([] :: acc).reverse
    else (seg :: acc).reverse
  | seg :: rest =>
    if isDoubleDot seg then resolveDots (acc.drop 1) rest
    else if isDot seg then resolveDots acc rest
    else resolveDots (seg :: acc) rest

/-- A path that begins with a slash, dots resolved. -/
def absolutePath (web : Bool) (cs : List Char) : List Char :=
  let isSlash (c : Char) : Bool := c = '/' || (web && c = '\\')
  let cs := match cs with
    | c :: rest => if isSlash c then rest else c :: rest
    | [] => []
  let segments := (Text.splitWhere isSlash cs).map (percentEncode pathSet)
  '/' :: List.intercalate ['/'] (resolveDots [] segments)

/-- Path, query and fragment of what follows scheme and authority. -/
def splitRest (cs : List Char) : List Char × Option (List Char) × Option (List Char) :=
  let (cs, fragment) := match Text.cutAt? '#' cs with
    | some (front, back) => (front, some (percentEncode fragmentSet back))
    | none => (cs, none)
  match Text.cutAt? '?' cs with
  | some (path, query) => (path, some query, fragment)
  | none => (cs, none, fragment)

/-- The address without host: an absolute path, or a text without structure. -/
def hostless (scheme : List Char) (cs : List Char) : Url :=
  let (path, query, fragment) := splitRest cs
  let path := match path with
    | '/' :: _ =>
      let p := absolutePath false path
      if p.take 2 = ['/', '/'] then '/' :: '.' :: p else p
    | _ => percentEncode [] path
  ⟨scheme, none, path, query.map (percentEncode querySet), fragment⟩

/-- The address with the authority at the front of `cs`. -/
def withHost (scheme : List Char) (cs : List Char) : Except AddressFault Url := do
  let name := String.ofList scheme
  let web := isWebScheme name
  let front := cs.takeWhile (fun c => !endsAuthority web c)
  let authority ← authorityOf name front
  let (path, query, fragment) := splitRest (cs.drop front.length)
  let path := if web || !path.isEmpty then absolutePath web path else []
  let set := if web then '\'' :: querySet else querySet
  return ⟨scheme, some authority, path, query.map (percentEncode set), fragment⟩

/-- The host of a file and what follows it; the host may be missing, and `localhost` is none. -/
def takeFileHost (cs : List Char) : Except AddressFault (List Char × List Char) := do
  let isSlash (c : Char) : Bool := c = '/' || c = '\\'
  match cs with
  | a :: b :: rest =>
    if isSlash a && isSlash b then
      let front := rest.takeWhile (fun c => !endsAuthority true c)
      let host ← if front.isEmpty then .ok [] else domainHost front
      return (if host = "localhost".toList then [] else host, rest.drop front.length)
    else return ([], cs)
  | cs => return ([], cs)

def fileUrl (cs : List Char) : Except AddressFault Url := do
  let (host, rest) ← takeFileHost cs
  let (path, query, fragment) := splitRest rest
  return ⟨"file".toList, some { host }, absolutePath true path,
    query.map (percentEncode ('\'' :: querySet)), fragment⟩

def parse (s : String) : Except AddressFault Url :=
  match takeScheme? (cleaned s.toList) with
  | none => .error .relative
  | some (scheme, rest) =>
    let name := String.ofList scheme
    if name = "file" then fileUrl rest
    else if isWebScheme name then
      withHost scheme (rest.dropWhile (fun c => c = '/' || c = '\\'))
    else
      match rest with
      | '/' :: '/' :: rest => withHost scheme rest
      | rest => .ok (hostless scheme rest)

end Url

end BindingRegistry.Remote
