import BindingRegistry.Json.Text
import BindingRegistry.Remote.Call
import BindingRegistry.Text.Blank

/-!
Forwarded calls as requests.
The target is the endpoint followed by interface and method. The caller's
headers travel along, except those of its own session; the session cookie, the
name of the forwarding instance and a correlation value are added after them.
A header takes the place of an earlier one of exactly its spelling, unless its
name marks it as an extension: those are kept side by side.
-/
namespace BindingRegistry.Remote

structure Header where
  name : String
  value : String
  deriving DecidableEq, Repr

namespace Header

/-- Whether the header has a name, spelled in any case. -/
def isNamed (h : Header) (name : String) : Bool := Text.lowerAscii h.name = Text.lowerAscii name

def isExtension (name : String) : Bool := name.startsWith "x-" || name.startsWith "X-"

def isTokenChar (c : Char) : Bool := c.isAlphanum || "!#$%&'*+-.^_\x60|~".toList.contains c

/-- Whether a name can be sent: at least one character, and only those of tokens. -/
def isValidName (name : String) : Bool := name ≠ "" && name.toList.all isTokenChar

/-- Whether a character can be sent in a value: anything but controls, a tab excepted. -/
def isValueChar (c : Char) : Bool := c = '\t' || (32 ≤ c.toNat && c.toNat ≠ 127)

def isValid (h : Header) : Bool := isValidName h.name && h.value.toList.all isValueChar

def line (h : Header) : String := h.name ++ ": " ++ h.value

def add (hs : List Header) (h : Header) : List Header :=
  (if isExtension h.name then hs else hs.filter (fun h' => h'.name ≠ h.name)) ++ [h]

end Header

def correlationHeader : String := "x-dynbind-crid"

def originHeader : String := "x-dynbind-proxy"

/-- The header by which the far side reports a failure. -/
def errorHeader : String := "x-dynbind-error"

/-- Whether a header of the caller stays behind. -/
def isWithheld (name : String) : Bool :=
  let name := Text.lowerAscii name
  name = "cookie" || name = "date"

/-- The headers a caller's context calls for, in the order they are added. -/
def contextHeaders (c : Caller) : List Header :=
  ((c.headers.toList.filter fun e => !isWithheld e.1).map fun e => ⟨e.1, e.2⟩) ++
    (c.sessionCookie.toList.map fun cookie => ⟨"Cookie", cookie⟩) ++
    (c.origin.toList.map fun origin => ⟨originHeader, origin⟩)

/-- The correlation value of the `n`th request: the caller's identifier and the number. -/
def correlation (c : Option Caller) (n : Nat) : String :=
  ((c.bind Caller.correlationId).getD "undefined") ++ "." ++ Decimal.natText n

/-- The address a call is sent to, before it is read as a URL. -/
def targetText (call : RemoteCall) : String :=
  let base := String.ofList (call.endpoint.text.toList.reverse.dropWhile (· = '/')).reverse
  base ++ "/" ++ call.interface ++ "/" ++ call.method

structure Request where
  url : String
  headers : List Header
  body : String

namespace Request

/-- Adds a header, unless there is one of its name already. -/
def addDefault (hs : List Header) (name value : String) : List Header :=
  if hs.any (·.isNamed name) then hs else Header.add hs ⟨name, value⟩

/-- The `n`th request of a client, for the given call. -/
def ofCall (n : Nat) (call : RemoteCall) : Request :=
  let fromContext := (call.context.map contextHeaders).getD []
  let own := ⟨correlationHeader, correlation call.context n⟩
  let headers := (fromContext ++ [own]).foldl Header.add []
  { url := targetText call
    headers := addDefault headers "Content-Type" "application/json"
    body := Json.text (.array call.args) }

def badHeader? (r : Request) : Option Header := r.headers.find? (!·.isValid)

/-- The headers as they are sent: with the length of the body, values without blanks around. -/
def sentHeaders (r : Request) : List Header :=
  (addDefault r.headers "Content-Length" (Decimal.natText r.body.utf8ByteSize)).map fun h =>
    { h with value := Text.trim h.value }

/-- The first line of the request to the address `u`; an empty query is left out. -/
def line (u : Url) : String :=
  let query := match u.query with
    | none | some [] => []
    | some cs => '?' :: cs
  "POST " ++ String.ofList (u.path ++ query) ++ " HTTP/1.1"

end Request

end BindingRegistry.Remote
