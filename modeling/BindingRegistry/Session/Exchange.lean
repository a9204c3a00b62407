import BindingRegistry.Remote.Http

/-!
Calls sent by one HTTP client to a peer that answers each of them as fixed in
advance.
-/
namespace BindingRegistry.Session

open Remote

/-- A peer: the number of the next request, the reply it will give, and the request it got. -/
structure Peer where
  next : Nat := 0
  response : Response
  received : Option (Request × Url) := none

/-- Bodies are given as texts. -/
instance coeBytes : Coe String (List UInt8) := ⟨Text.bytes⟩

/-- The size in the line before a chunk, without what follows a semicolon. -/
def chunkSize? (line : List Char) : Option Nat :=
  match Text.trimChars (line.takeWhile (· ≠ ';')) with
  | [] => none
  | ds => ds.foldlM (fun n c => (Json.hexValue? c).map (n * 16 + ·)) 0

/-- The data of chunks, the last of which is empty. -/
def unchunk? : (fuel : Nat) → List UInt8 → Option (List UInt8)
  | 0, _ => none
  | fuel + 1, bs => do
    let line := bs.takeWhile (· ≠ 13)
    match bs.drop line.length with
    | 13 :: 10 :: rest =>
      let n ← chunkSize? (line.map fun b => Char.ofNat b.toNat)
      match rest.drop n with
      | 13 :: 10 :: next => if n = 0 then some [] else (unchunk? fuel next).map (rest.take n ++ ·)
      | _ => none
    | _ => none

/-- A client whose requests reach the peer. No text begins with the mark of a zipped body: it is not
UTF-8. -/
def peerClient : Client Peer where
  draw p := (p.next, { p with next := p.next + 1 })
  exchange r url p := (p.response, { p with received := some (r, url) })
  decoders := { chunked := fun bs => unchunk? bs.length bs, gzip := fun _ => none }

structure ExchangeAnswer where
  received : Option (Request × Url)
  outcome : Except HttpError Value
  lines : List String

/-- Sends calls one after the other, each with the reply it will get. -/
def runExchanges (next : Nat) : List (RemoteCall × Response) → List ExchangeAnswer
  | [] => []
  | (call, response) :: rest =>
    let sent := (peerClient.send call).run { next, response }
    let (outcome, peer) := sent.value
    ⟨peer.received, outcome, sent.events.map Event.line⟩ :: runExchanges peer.next rest

/-- The headers a peer got that are the caller's or the transport's: names in lower case, in
ascending order, without those that any client sends. -/
def shownHeaders (r : Request) : List (String × String) :=
  let all := r.sentHeaders.map fun h => (Text.lowerAscii h.name, h.value)
  let common := ["host", "user-agent", "accept", "accept-encoding"]
  (all.filter fun h => !common.contains h.1).mergeSort
    fun a b => a.1 < b.1 || (a.1 = b.1 && a.2 ≤ b.2)

end BindingRegistry.Session
