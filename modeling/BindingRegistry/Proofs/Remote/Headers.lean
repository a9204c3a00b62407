import BindingRegistry.Remote.Http

/-!
The headers of a request. Those of the caller come first, without the ones that
stay behind, and the transport's own follow them. The session cookie is the only
cookie there is. The names of the other two mark extensions, and extensions stand
side by side: what a caller sends under one of them, in any spelling, travels
along with what the transport says itself.
-/
namespace BindingRegistry

open Remote

def Caller.sent (c : Caller) : List Header := c.headers.toList.map fun e => ⟨e.1, e.2⟩

namespace RemoteCall

/-- The headers that the caller sent, if one is known. -/
def sent (call : RemoteCall) : List Header := (call.context.map Caller.sent).getD []

def shared (call : RemoteCall) : List Header := call.sent.filter fun h => !isWithheld h.name

/-- The session cookie as a header, if there is one. -/
def cookie (call : RemoteCall) : List Header :=
  (call.context.bind Caller.sessionCookie).toList.map fun cookie => ⟨"Cookie", cookie⟩

/-- The name of the forwarding instance as a header, if there is one. -/
def origin (call : RemoteCall) : List Header :=
  (call.context.bind Caller.origin).toList.map fun origin => ⟨originHeader, origin⟩

/-- The correlation value of the `n`th request as a header. -/
def tag (call : RemoteCall) (n : Nat) : Header := ⟨correlationHeader, correlation call.context n⟩

end RemoteCall

namespace Remote

namespace Header

theorem isNamed_iff {h : Header} {name : String} :
    h.isNamed name = true ↔ Text.lowerAscii h.name = Text.lowerAscii name := by
  simp [isNamed]

/-- Whether a header leaves an earlier one in place. -/
def Spares (h h' : Header) : Prop := isExtension h.name = true ∨ h'.name ≠ h.name

theorem add_of_spares {hs : List Header} {h : Header} (hh : ∀ h' ∈ hs, h.Spares h') :
    add hs h = hs ++ [h] := by
  by_cases he : isExtension h.name = true
  · simp [add, he]
  · have hkept : hs.filter (fun h' => h'.name ≠ h.name) = hs := by
      rw [List.filter_eq_self]
      intro h' hm
      have hne : h'.name ≠ h.name := (hh h' hm).resolve_left he
      simpa using hne
    simp only [add, if_neg he, hkept]

/-- Headers of which none takes the place of an earlier one are added in their order. -/
theorem foldl_add {hs hs' : List Header} (h : (hs ++ hs').Pairwise fun h' h => Spares h h') :
    hs'.foldl add hs = hs ++ hs' := by
  induction hs' generalizing hs with
  | nil => simp
  | cons x rest ih =>
    have hx : ∀ h' ∈ hs, x.Spares h' :=
      fun h' hm => (List.pairwise_append.1 h).2.2 h' hm x List.mem_cons_self
    have hrest := @ih (hs ++ [x]) (by simpa using h)
    simpa [add_of_spares hx] using hrest

end Header

/-- The headers of a request that have a name, spelled in any case. -/
def Request.named (r : Request) (name : String) : List Header := r.headers.filter (·.isNamed name)

/-- Headers with the values `vs`, all under one name. -/
def under (name : String) (vs : List String) : List Header := vs.map fun v => ⟨name, v⟩

theorem filter_under_self {name name' : String} (vs : List String)
    (h : Text.lowerAscii name = Text.lowerAscii name') :
    (under name vs).filter (·.isNamed name') = under name vs := by
  rw [List.filter_eq_self]
  intro x hm
  obtain ⟨v, -, rfl⟩ := List.mem_map.1 hm
  exact Header.isNamed_iff.2 h

theorem filter_under_other {name name' : String} (vs : List String)
    (h : Text.lowerAscii name ≠ Text.lowerAscii name') :
    (under name vs).filter (·.isNamed name') = [] := by
  rw [List.filter_eq_nil_iff]
  intro x hm hnamed
  obtain ⟨v, -, rfl⟩ := List.mem_map.1 hm
  rw [Header.isNamed_iff] at hnamed
  exact h hnamed

theorem pairwise_under (name : String) (o : Option String) :
    (under name o.toList).Pairwise fun h' h => Header.Spares h h' := by
  cases o with
  | none => exact List.Pairwise.nil
  | some v => exact List.pairwise_singleton _ _

theorem isWithheld_iff {name : String} :
    isWithheld name = true ↔ Text.lowerAscii name = "cookie" ∨ Text.lowerAscii name = "date" := by
  simp [isWithheld]

theorem lowerAscii_cookie : Text.lowerAscii "Cookie" = "cookie" := by decide
theorem isExtension_originHeader : Header.isExtension originHeader = true := by decide +kernel
theorem isExtension_correlationHeader : Header.isExtension correlationHeader = true := by
  decide +kernel

/-- A default stands at the end, unless there is a header of its name already. -/
theorem addDefault_eq (hs : List Header) (name value : String) :
    Request.addDefault hs name value =
      hs ++ if hs.any (·.isNamed name) = true then [] else [⟨name, value⟩] := by
  by_cases hany : hs.any (·.isNamed name) = true
  · simp [Request.addDefault, hany]
  · have hnone : ∀ h ∈ hs, ¬ h.isNamed name = true := by simpa using hany
    have hspares : ∀ h' ∈ hs, Header.Spares ⟨name, value⟩ h' := by
      intro h' hm
      refine .inr fun he => hnone h' hm ?_
      rw [Header.isNamed_iff, he]
    rw [Request.addDefault, if_neg hany, if_neg hany, Header.add_of_spares hspares]

end Remote

namespace RemoteCall

variable {call : RemoteCall}

theorem mem_shared {h : Header} : h ∈ call.shared ↔
    h ∈ call.sent ∧ Text.lowerAscii h.name ≠ "cookie" ∧ Text.lowerAscii h.name ≠ "date" := by
  rw [shared, List.mem_filter, ← not_or, ← isWithheld_iff]
  simp

/-- A caller sends one header of a spelling. -/
theorem sent_pairwise (call : RemoteCall) : call.sent.Pairwise fun h h' => h.name ≠ h'.name := by
  rcases hc : call.context with _ | c
  · simp [sent, hc]
  · have hkeys : (c.headers.toList.map (·.1)).Pairwise (· ≠ ·) := c.headers.nodup_keys
    rw [List.pairwise_map] at hkeys
    simpa [sent, hc, Caller.sent, List.pairwise_map] using hkeys

/-- Under a name that does not stay behind, what travels is what the caller sent. -/
theorem filter_shared {name : String} (h : ¬ isWithheld name = true) :
    call.shared.filter (·.isNamed name) = call.sent.filter (·.isNamed name) := by
  rw [shared, List.filter_filter]
  refine List.filter_congr fun x _ => ?_
  by_cases hx : x.isNamed name = true
  · have hkept : isWithheld x.name = false := by
      rw [isWithheld_iff, ← Header.isNamed_iff.1 hx, ← isWithheld_iff] at h
      simpa using h
    simp [hx, hkept]
  · simp [hx]

theorem contextHeaders_getD (call : RemoteCall) :
    (call.context.map contextHeaders).getD [] = call.shared ++ call.cookie ++ call.origin := by
  rcases hc : call.context with _ | c
  · simp [shared, sent, cookie, origin, hc]
  · simp [shared, sent, cookie, origin, hc, contextHeaders, Caller.sent, List.filter_map,
      Function.comp_def]

/-- The headers of a call and of its transport all keep their places. -/
theorem headers_spare (call : RemoteCall) (n : Nat) :
    (call.shared ++ call.cookie ++ call.origin ++ [call.tag n]).Pairwise
      fun h' h => Header.Spares h h' := by
  have hshared : call.shared.Pairwise fun h' h => h.Spares h' :=
    (call.sent_pairwise.filter _).imp fun hne => .inr hne
  have hcookie : ∀ h' ∈ call.shared, ∀ h ∈ call.cookie, h.Spares h' := by
    intro h' hm' h hm
    obtain ⟨cookie, -, rfl⟩ := List.mem_map.1 hm
    refine .inr fun he => (mem_shared.1 hm').2.1 ?_
    rw [he, lowerAscii_cookie]
  have horigin : ∀ h' ∈ call.shared ++ call.cookie, ∀ h ∈ call.origin, h.Spares h' := by
    intro h' _ h hm
    obtain ⟨origin, -, rfl⟩ := List.mem_map.1 hm
    exact .inl isExtension_originHeader
  have htag : ∀ h' ∈ call.shared ++ call.cookie ++ call.origin, ∀ h ∈ [call.tag n],
      h.Spares h' := by
    intro h' _ h hm
    obtain rfl := List.mem_singleton.1 hm
    exact .inl isExtension_correlationHeader
  have hfirst := List.pairwise_append.2 ⟨hshared, pairwise_under "Cookie" _, hcookie⟩
  have hsecond := List.pairwise_append.2 ⟨hfirst, pairwise_under originHeader _, horigin⟩
  exact List.pairwise_append.2 ⟨hsecond, List.pairwise_singleton _ _, htag⟩

end RemoteCall

namespace Remote.Request

variable (n : Nat) (call : RemoteCall)

/-- A request has the caller's headers that travel, the transport's own after them, and a content
type that is the caller's if there is one. -/
theorem headers_ofCall : (ofCall n call).headers =
    addDefault (call.shared ++ call.cookie ++ call.origin ++ [call.tag n]) "Content-Type"
      "application/json" := by
  have hadded : (call.shared ++ call.cookie ++ call.origin ++ [call.tag n]).foldl Header.add [] =
      call.shared ++ call.cookie ++ call.origin ++ [call.tag n] :=
    @Header.foldl_add [] _ (call.headers_spare n)
  rw [← hadded, ← call.contextHeaders_getD]
  rfl

theorem named_ofCall {name : String}
    (hname : Text.lowerAscii "Content-Type" ≠ Text.lowerAscii name) : (ofCall n call).named name =
      call.shared.filter (·.isNamed name) ++ call.cookie.filter (·.isNamed name) ++
        call.origin.filter (·.isNamed name) ++ [call.tag n].filter (·.isNamed name) := by
  have hdefault : [(⟨"Content-Type", "application/json"⟩ : Header)].filter (·.isNamed name) = [] :=
    filter_under_other ["application/json"] hname
  rw [named, headers_ofCall, addDefault_eq, List.filter_append]
  split
  · simp
  · simp [hdefault]

theorem named_cookie : (ofCall n call).named "Cookie" = call.cookie := by
  have hshared : call.shared.filter (·.isNamed "Cookie") = [] := by
    rw [List.filter_eq_nil_iff]
    intro h hm hnamed
    rw [Header.isNamed_iff, lowerAscii_cookie] at hnamed
    exact (RemoteCall.mem_shared.1 hm).2.1 hnamed
  have hcookie : call.cookie.filter (·.isNamed "Cookie") = call.cookie := filter_under_self _ rfl
  have horigin : call.origin.filter (·.isNamed "Cookie") = [] :=
    filter_under_other _ (by decide)
  have htag : [call.tag n].filter (·.isNamed "Cookie") = [] :=
    filter_under_other [correlation call.context n] (by decide)
  rw [named_ofCall n call (by decide), hshared, hcookie, horigin, htag]
  simp

theorem named_originHeader : (ofCall n call).named originHeader =
    call.sent.filter (·.isNamed originHeader) ++ call.origin := by
  have hcookie : call.cookie.filter (·.isNamed originHeader) = [] :=
    filter_under_other _ (by decide)
  have horigin : call.origin.filter (·.isNamed originHeader) = call.origin :=
    filter_under_self _ rfl
  have htag : [call.tag n].filter (·.isNamed originHeader) = [] :=
    filter_under_other [correlation call.context n] (by decide)
  rw [named_ofCall n call (by decide), RemoteCall.filter_shared (by decide), hcookie, horigin, htag]
  simp

theorem named_correlationHeader : (ofCall n call).named correlationHeader =
    call.sent.filter (·.isNamed correlationHeader) ++ [call.tag n] := by
  have hcookie : call.cookie.filter (·.isNamed correlationHeader) = [] :=
    filter_under_other _ (by decide)
  have horigin : call.origin.filter (·.isNamed correlationHeader) = [] :=
    filter_under_other _ (by decide)
  have htag : [call.tag n].filter (·.isNamed correlationHeader) = [call.tag n] :=
    filter_under_self [correlation call.context n] rfl
  rw [named_ofCall n call (by decide), RemoteCall.filter_shared (by decide), hcookie, horigin, htag]
  simp

end Remote.Request

/-- The only cookie of a request is that of the session. Under the names of the forwarding instance
and of the correlation value a request carries what the caller sent under them, in any spelling,
before what the transport says: the transport's header is the only one exactly when the caller sent
none of its name. -/
theorem request_reserved_headers (n : Nat) (call : RemoteCall) :
    (Request.ofCall n call).named "Cookie" = call.cookie ∧
    (Request.ofCall n call).named originHeader =
      call.sent.filter (·.isNamed originHeader) ++ call.origin ∧
    (Request.ofCall n call).named correlationHeader =
      call.sent.filter (·.isNamed correlationHeader) ++ [call.tag n] ∧
    ((Request.ofCall n call).named originHeader = call.origin ↔
      ∀ h ∈ call.sent, ¬ h.isNamed originHeader) ∧
    ((Request.ofCall n call).named correlationHeader = [call.tag n] ↔
      ∀ h ∈ call.sent, ¬ h.isNamed correlationHeader) := by
  have horigin := Request.named_originHeader n call
  have htag := Request.named_correlationHeader n call
  refine ⟨Request.named_cookie n call, horigin, htag, ?_, ?_⟩
  · rw [horigin, List.append_left_eq_self, List.filter_eq_nil_iff]
  · rw [htag, List.append_left_eq_self, List.filter_eq_nil_iff]

def peerCall (caller : Caller) : RemoteCall where
  endpoint := ⟨"http".toList, some { host := "peer".toList }, ['/'], none, none⟩
  interface := "T"
  method := "m"
  args := []
  context := some caller

/-- A call of a caller who sends headers under the names that the transport uses itself, and who
came through no other instance. -/
def forgingCall : RemoteCall := peerCall {
  correlationId := some "req-1"
  headers := .ofList [("X-Dynbind-Proxy", "trusted"), ("x-dynbind-crid", "forged.7")] }

/-- Both of them are sent: there are two correlation values, and an instance is named. -/
theorem forged_headers_travel :
    (Request.ofCall 0 forgingCall).badHeader? = none ∧
    (Request.ofCall 0 forgingCall).named correlationHeader =
      [⟨"x-dynbind-crid", "forged.7"⟩, ⟨"x-dynbind-crid", "req-1.0"⟩] ∧
    forgingCall.origin = [] ∧
    (Request.ofCall 0 forgingCall).named originHeader = [⟨"X-Dynbind-Proxy", "trusted"⟩] := by
  have hheaders : (Request.ofCall 0 forgingCall).headers =
      [⟨"X-Dynbind-Proxy", "trusted"⟩, ⟨"x-dynbind-crid", "forged.7"⟩,
        ⟨"x-dynbind-crid", "req-1.0"⟩, ⟨"Content-Type", "application/json"⟩] := by
    decide +kernel
  refine ⟨?_, ?_, rfl, ?_⟩
  · rw [Request.badHeader?, hheaders, List.find?_eq_none]
    simp [Header.isValid, Header.isValidName, Header.isTokenChar, Header.isValueChar]
  · rw [Request.named, hheaders]
    decide
  · rw [Request.named, hheaders]
    decide

end BindingRegistry
