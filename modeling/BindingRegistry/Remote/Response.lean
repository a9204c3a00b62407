import BindingRegistry.Json.Reader
import BindingRegistry.Remote.Request
import BindingRegistry.Text.Utf8

/-!
Replies to forwarded calls.
A reply that carries the error header is a failure of the far side, whatever
else it says; any other reply with an error status is a failed request. What is
left is a result: a value if the content type speaks of one, else a text of
limited size. The body is taken in chunks, up to its announced length, which it
must reach, or to its end; then it is unzipped if it says so.
-/
namespace BindingRegistry.Remote

structure Response where
  version : String := "HTTP/1.1"
  status : Nat
  headers : List Header
  body : List UInt8
  /-- The number in the first header of the body's length. -/
  length : Option Nat

/-- How encoded bodies are read; nothing for bytes that are not in the encoding. -/
structure Decoders where
  chunked : List UInt8 → Option (List UInt8)
  gzip : List UInt8 → Option (List UInt8)

inductive HttpError where
  | badHeader (url : String) (h : Header)
  | badAddress (url : String) (fault : AddressFault)
  | status (url : String) (parsed : Url) (code : Nat)
  | remote (message : String)
  | body
  deriving DecidableEq

namespace HttpError

def cause? : HttpError → Option (String × String)
  | badHeader url h => some (url, "Bad Header: invalid header '" ++ h.line ++ "'")
  | badAddress url fault => some (url, "Bad URL: failed to parse URL: " ++ fault.message)
  | status url parsed code =>
    some (url, parsed.text ++ ": status code " ++ Decimal.natText code)
  | remote _ | body => none

def message (e : HttpError) : String :=
  match e, e.cause? with
  | _, some (url, cause) => "request to " ++ url ++ " failed: " ++ cause
  | remote message, none => "remote error: " ++ message
  | _, none => "response body could not be read"

def toFailure (e : HttpError) : Failure := ⟨e.message, (e.cause?.map (·.2)).toList⟩

end HttpError

def contains (part : List Char) : List Char → Bool
  | [] => part.isEmpty
  | c :: cs => part.isPrefixOf (c :: cs) || contains part cs

/-- The most bytes a body may have that is taken for a text. -/
def textLimit : Nat := 10 * 1024 * 1024

namespace Response

/-- The value of the first header of a name, spelled in any case, without blanks around. Lines
without a valid name are no headers. -/
def header? (r : Response) (name : String) : Option String :=
  (r.headers.find? fun h => Header.isValidName h.name && h.isNamed name).map
    fun h => Text.trim h.value

def contentType (r : Response) : List Char :=
  ((r.header? "content-type").getD "text/plain").toList.takeWhile (· ≠ ';')

def isJson (r : Response) : Bool := contains "json".toList r.contentType

/-- Whether the status rules out a body. -/
def isBodiless (r : Response) : Bool := r.status = 204 || r.status = 304

/-- Whether the body comes in chunks: any transfer encoding is taken for that one. -/
def isChunked (r : Response) : Bool :=
  Text.lowerAscii r.version ≠ "http/1.0" && (r.header? "transfer-encoding").any (· ≠ "")

def isZipped (r : Response) : Bool :=
  (r.header? "content-encoding").any fun encoding => encoding = "gzip" || encoding = "x-gzip"

/-- What is taken of the body as it came; nothing if it is cut short. -/
def received? (d : Decoders) (r : Response) : Option (List UInt8) :=
  if r.isBodiless then some []
  else if r.isChunked then d.chunked r.body
  else match r.length with
    | none => some r.body
    | some n => if n ≤ r.body.length then some (r.body.take n) else none

def content? (d : Decoders) (r : Response) : Option (List UInt8) := do
  let received ← r.received? d
  if r.isZipped then d.gzip received else some received

def result (d : Decoders) (r : Response) : Except HttpError Value :=
  match r.content? d with
  | none => .error .body
  | some bytes =>
    if r.isJson then
      match (String.fromUTF8? ⟨bytes.toArray⟩).bind Json.parse? with
      | some v => .ok v
      | none => .error .body
    else if textLimit < bytes.length then .error .body
    else .ok (.string (Text.lossy bytes))

/-- What a reply to the request for `url` amounts to. -/
def outcome (d : Decoders) (url : String) (parsed : Url) (r : Response) :
    Except HttpError Value :=
  match r.header? errorHeader with
  | some message => .error (.remote message)
  | none => if 400 ≤ r.status then .error (.status url parsed r.status) else r.result d

end Response

end BindingRegistry.Remote
