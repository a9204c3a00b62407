import BindingRegistry.Remote.Response

/-!
Forwarding calls over HTTP.
A client numbers its requests; the number is drawn before anything can fail, so
it goes up with every call, whether a request leaves or not.
-/
namespace BindingRegistry.Remote

structure Client (σ : Type) where
  draw : σ → Nat × σ
  exchange : Request → Url → σ → Response × σ
  decoders : Decoders

namespace Client

variable {σ : Type}

/-- Sends a request that has been numbered. -/
def deliver (c : Client σ) (r : Request) : Action σ (Except HttpError Value) :=
  match r.badHeader?, Url.parse r.url with
  | some h, _ => return .error (.badHeader r.url h)
  | none, .error fault => return .error (.badAddress r.url fault)
  | none, .ok url => do
    let response ← Action.onWorld (c.exchange r url)
    return response.outcome c.decoders r.url url

def send (c : Client σ) (call : RemoteCall) : Action σ (Except HttpError Value) := do
  let n ← Action.onWorld c.draw
  let r := Request.ofCall n call
  Action.log (.sendingCall r.url call.args.length)
  c.deliver r

def transport (c : Client σ) : Transport σ := fun call => do
  match ← c.send call with
  | .ok v => return .ok v
  | .error e => return .error (.failed e.toFailure)

end Client

end BindingRegistry.Remote
