import BindingRegistry.Proofs.Remote.Headers
import BindingRegistry.Proofs.Text.Joined
import BindingRegistry.Session.Exchange

/-!
Correlation values along a run of sends. A send draws one number, whether its
request leaves or not and whatever comes back, so the sends of a client are
numbered in their order. A value ends in a dot and the digits of its number.
No digit is a dot, so the number can be read off the end of a value, whatever
dots and digits the identifier before it has.
-/
namespace BindingRegistry

namespace Remote

namespace Client

variable {σ : Type}

def request (c : Client σ) (call : RemoteCall) (s : σ) : Request := .ofCall (c.draw s).1 call

theorem send_result (c : Client σ) (call : RemoteCall) (s : σ) :
    (c.send call).result s = (c.deliver (c.request call s)).result (c.draw s).2 := rfl

/-- Sends calls one after the other; each with the request made of it and the way it ended. -/
def sendAll (c : Client σ) : List RemoteCall → σ → List (Request × Except HttpError Value) × σ
  | [], s => ([], s)
  | call :: calls, s =>
    let sent := (c.send call).result s
    let rest := c.sendAll calls sent.2
    ((c.request call s, sent.1) :: rest.1, rest.2)

namespace Counting

variable {c : Client σ} {next : σ → Nat}

end Counting

end Client

end Remote

end BindingRegistry
