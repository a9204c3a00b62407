import BindingRegistry.Proofs.Json.Reading
import BindingRegistry.Proofs.Remote.Correlation
import BindingRegistry.Proofs.Remote.Forwarding
import BindingRegistry.Proofs.Text.Utf8

/-!
What becomes of the reply to a forwarded call. Its error header, its status, its
content type and its body decide in this order, and each reply has one outcome: a
result only if it carries no error header, no error status and a body that can be
read as what the content type says. Everything else is an error, and it stays one,
with its text, on the way back through a proxy.

A body in JSON is held against the grammar: a text of it that is nested too deep,
has a number beyond the finite range or half of a surrogate pair is refused too.
-/
namespace BindingRegistry

namespace Remote

namespace Response

variable {r : Response}

def Holds (d : Decoders) (r : Response) (t : Json.Document) : Prop :=
  r.content? d = some (Text.bytes (String.ofList t.chars))

variable {d : Decoders}

end Response

namespace Client

variable {σ : Type}

/-- The client gets the reply to a call, which leaves the world as `s'`: the request can be sent, to
the address `parsed`. -/
structure Replied (c : Client σ) (call : RemoteCall) (s : σ) (parsed : Url) (reply : Response)
    (s' : σ) : Prop where
  sendable : (c.request call s).badHeader? = none
  address : Url.parse (c.request call s).url = .ok parsed
  reply : c.exchange (c.request call s) parsed (c.draw s).2 = (reply, s')

theorem Replied.send {c : Client σ} {call : RemoteCall} {s s' : σ} {parsed : Url} {reply : Response}
    (h : c.Replied call s parsed reply s') :
    (c.send call).result s = (reply.outcome c.decoders (c.request call s).url parsed, s') := by
  rw [send_result, deliver, h.sendable, h.address]
  simp [h.reply]

end Client

end Remote

open Remote (Client Header HttpError Request Response Url)

/-- A reply that looks like a result and reports a failure. -/
def refusal : Response where
  status := 200
  headers := [⟨"Content-Type", "application/json"⟩, ⟨"X-Dynbind-Error", " no such user "⟩]
  body := "7"
  length := some 1

end BindingRegistry
