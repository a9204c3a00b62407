import BindingRegistry.Proofs.Remote.Lines
import BindingRegistry.Proofs.Text.Joined

/-!
Which binding the address of a request names. Interface and method stand behind
the endpoint as they are, each after a slash. So an address stands for one
binding if the interface has no slash, which is then what stands before the first
one, or if the method has none. Two names whose slashes can be counted to the
interface or to the method have the same address. What is requested is what the
address is read as, which can be the same for several addresses; it is the
address itself if reading leaves endpoint and names alone.
-/
namespace BindingRegistry

namespace Remote

/-- The binding named behind `base` and a slash, the interface ending at the first slash. -/
def nameByFirst? (base target : List Char) : Option QualifiedName :=
  (Text.cutAt? '/' (target.drop (base.length + 1))).map fun p =>
    ⟨String.ofList p.1, String.ofList p.2⟩

/-- The binding named behind `base` and a slash, the method beginning at the last slash. -/
def nameByLast? (base target : List Char) : Option QualifiedName :=
  (Text.cutAt? '/' (target.drop (base.length + 1)).reverse).map fun p =>
    ⟨String.ofList p.2.reverse, String.ofList p.1.reverse⟩

def calledName (call : RemoteCall) : QualifiedName := ⟨call.interface, call.method⟩

/-- The binding of a call can be told from what stands behind `base`. -/
structure NamesBinding (base target : List Char) (call : RemoteCall) : Prop where
  byFirst : '/' ∉ call.interface.toList → nameByFirst? base target = some (calledName call)
  byLast : '/' ∉ call.method.toList → nameByLast? base target = some (calledName call)

theorem namesBinding (base : List Char) (call : RemoteCall) :
    NamesBinding base (base ++ '/' :: bindingChars call) call := by
  have hdrop : (base ++ '/' :: bindingChars call).drop (base.length + 1) = bindingChars call := by
    simp [List.drop_append]
  constructor
  · intro h
    rw [nameByFirst?, hdrop, bindingChars, Text.cutAt?_append h]
    simp [calledName]
  · intro h
    have hmethod : '/' ∉ call.method.toList.reverse := by rwa [List.mem_reverse]
    have hreverse : (bindingChars call).reverse =
        call.method.toList.reverse ++ '/' :: call.interface.toList.reverse := by
      simp [bindingChars]
    rw [nameByLast?, hdrop, hreverse, Text.cutAt?_append hmethod]
    simp [calledName]

/-- The interface of `b` goes on behind that of `a` over a slash, with what stands before the method
of `b`, over a slash too, in the method of `a`. -/
def Continues (a b : RemoteCall) : Prop :=
  ∃ x, b.interface = a.interface ++ "/" ++ x ∧ a.method = x ++ "/" ++ b.method

theorem continues_iff {a b : RemoteCall} : Continues a b ↔ ∃ x : List Char,
    b.interface.toList = a.interface.toList ++ '/' :: x ∧
      a.method.toList = x ++ '/' :: b.method.toList := by
  constructor
  · rintro ⟨x, hi, hm⟩
    exact ⟨x.toList, by simp [hi], by simp [hm]⟩
  · rintro ⟨x, hi, hm⟩
    refine ⟨String.ofList x, ?_, ?_⟩
    · rw [← String.toList_inj, hi]
      simp
    · rw [← String.toList_inj, hm]
      simp

theorem Continues.slashes {a b : RemoteCall} (h : Continues a b) :
    '/' ∈ b.interface.toList ∧ '/' ∈ a.method.toList := by
  obtain ⟨x, hi, hm⟩ := continues_iff.1 h
  simp [hi, hm]

theorem bindingChars_eq_iff {a b : RemoteCall} : bindingChars a = bindingChars b ↔
    calledName a = calledName b ∨ Continues a b ∨ Continues b a := by
  rw [bindingChars, bindingChars, append_cons_eq_iff, continues_iff, continues_iff]
  simp [calledName, String.toList_inj]

structure LeftAlone (call : RemoteCall) : Prop where
  endpoint : Settled call.endpoint
  interface : PlainPath call.interface.toList
  method : PlainPath call.method.toList

end Remote

open Remote (Request Url calledName withoutSlashes Continues LeftAlone NamesBinding)

/-- Of two requests to one endpoint, whoever makes them, the addresses are the same exactly if both
are for one binding, or if one interface continues the other over a slash at the cost of the method.
So bindings are told apart by their addresses if no interface has a slash, or no method, and the
binding that is meant is what stands behind the endpoint, cut at the first slash or at the last.
Where reading leaves endpoint and names alone, both are requested as they stand, and the lines of
the requests tell as much as the addresses. -/
theorem addresses_tell_apart (m n : Nat) {a b : RemoteCall} (h : a.endpoint = b.endpoint) :
    ((Request.ofCall m a).url = (Request.ofCall n b).url ↔
      calledName a = calledName b ∨ Continues a b ∨ Continues b a) ∧
    (calledName a ≠ calledName b →
      ('/' ∉ a.interface.toList ∧ '/' ∉ b.interface.toList) ∨
        ('/' ∉ a.method.toList ∧ '/' ∉ b.method.toList) →
      (Request.ofCall m a).url ≠ (Request.ofCall n b).url) ∧
    NamesBinding (withoutSlashes a.endpoint.text.toList) (Request.ofCall m a).url.toList a ∧
    (LeftAlone a → LeftAlone b → ∃ u v,
      Url.parse (Request.ofCall m a).url = .ok u ∧ Url.parse (Request.ofCall n b).url = .ok v ∧
      (Request.line u = Request.line v ↔ (Request.ofCall m a).url = (Request.ofCall n b).url) ∧
      Request.line u = "POST " ++ String.ofList (withoutSlashes a.endpoint.path) ++ "/" ++
        a.interface ++ "/" ++ a.method ++ " HTTP/1.1" ∧
      NamesBinding (withoutSlashes a.endpoint.path) u.path a) := by
  have hurl (k : Nat) (call : RemoteCall) : (Request.ofCall k call).url.toList =
      withoutSlashes call.endpoint.text.toList ++ '/' :: Remote.bindingChars call := by
    rw [Url.text, String.toList_ofList]
    exact Remote.toList_targetText call
  have hchars : (Request.ofCall m a).url = (Request.ofCall n b).url ↔
      Remote.bindingChars a = Remote.bindingChars b := by
    rw [← String.toList_inj, hurl, hurl, h, List.append_cancel_left_eq, List.cons_inj_right]
  have hsame := hchars.trans Remote.bindingChars_eq_iff
  refine ⟨hsame, fun hne hslash heq => ?_, ?_, fun ha hb => ?_⟩
  · rcases hsame.1 heq with heq | hab | hba
    · exact hne heq
    · exact hslash.elim (fun hi => hi.2 hab.slashes.1) fun hm => hm.1 hab.slashes.2
    · exact hslash.elim (fun hi => hi.1 hba.slashes.1) fun hm => hm.2 hba.slashes.2
  · rw [hurl]
    exact Remote.namesBinding _ a
  · have hline := Remote.line_plainTarget ha.endpoint
    refine ⟨Remote.plainTarget a, Remote.plainTarget b,
      Remote.parse_targetText ha.endpoint ha.interface ha.method,
      Remote.parse_targetText hb.endpoint hb.interface hb.method, ?_, ?_,
      Remote.namesBinding _ a⟩
    · rw [hchars, hline, Remote.line_plainTarget hb.endpoint, h, ← String.toList_inj]
      simp only [String.toList_append, String.toList_ofList, List.append_cancel_right_eq,
        List.append_cancel_left_eq, List.cons_inj_right]
    · rw [hline, ← String.toList_inj]
      simp [Remote.bindingChars]

def peer : Remote.Url where
  scheme := "http".toList
  authority := some { host := "peer".toList }
  path := "/api/".toList
  query := none
  fragment := none

def callPeer (n : QualifiedName) : RemoteCall := ⟨peer, n.interface, n.method, [.integer 1], none⟩

/-- Either slash may be the one between interface and method, and what follows a `#` is not
requested. -/
theorem bindings_share_addresses : Url.parse "http://peer/api/" = .ok peer ∧
    calledName (callPeer ⟨"a/b", "c"⟩) ≠ calledName (callPeer ⟨"a", "b/c"⟩) ∧
    (Request.ofCall 0 (callPeer ⟨"a/b", "c"⟩)).url = "http://peer/api/a/b/c" ∧
    (Request.ofCall 1 (callPeer ⟨"a", "b/c"⟩)).url = "http://peer/api/a/b/c" ∧
    (Request.ofCall 0 (callPeer ⟨"a", "b#x"⟩)).url ≠
      (Request.ofCall 1 (callPeer ⟨"a", "b#y"⟩)).url ∧
    (Url.parse (Request.ofCall 0 (callPeer ⟨"a", "b#x"⟩)).url).map Request.line =
      .ok "POST /api/a/b HTTP/1.1" ∧
    (Url.parse (Request.ofCall 1 (callPeer ⟨"a", "b#y"⟩)).url).map Request.line =
      .ok "POST /api/a/b HTTP/1.1" := by
  have hx : (Request.ofCall 0 (callPeer ⟨"a", "b#x"⟩)).url = "http://peer/api/a/b#x" := by
    decide +kernel
  have hy : (Request.ofCall 1 (callPeer ⟨"a", "b#y"⟩)).url = "http://peer/api/a/b#y" := by
    decide +kernel
  refine ⟨by decide +kernel, by decide, ?_, ?_, ?_, ?_, ?_⟩
  · decide +kernel
  · decide +kernel
  · rw [hx, hy]
    decide
  · rw [hx]
    decide +kernel
  · rw [hy]
    decide +kernel

theorem settled_peer : Remote.Settled peer where
  hasPort := rfl
  query := rfl
  fragment := rfl
  read := by
    have htext : peer.text = "http://peer/api/" := by decide +kernel
    rw [htext]
    decide +kernel

theorem leftAlone_callPeer {n : QualifiedName} (hinterface : Remote.PlainPath n.interface.toList)
    (hmethod : Remote.PlainPath n.method.toList) : LeftAlone (callPeer n) :=
  ⟨settled_peer, hinterface, hmethod⟩

/-- A method with a slash is told apart from one without, and is read off address and line. -/
theorem notes_told_apart :
    (Request.ofCall 0 (callPeer ⟨"Notes", "all/new"⟩)).url ≠
      (Request.ofCall 1 (callPeer ⟨"Notes", "all"⟩)).url ∧
    ∃ u v, Url.parse (Request.ofCall 0 (callPeer ⟨"Notes", "all/new"⟩)).url = .ok u ∧
      Url.parse (Request.ofCall 1 (callPeer ⟨"Notes", "all"⟩)).url = .ok v ∧
      Request.line u ≠ Request.line v ∧ Request.line u = "POST /api/Notes/all/new HTTP/1.1" ∧
      Remote.nameByFirst? "/api".toList u.path = some ⟨"Notes", "all/new"⟩ := by
  have hslash : '/' ∉ (callPeer ⟨"Notes", "all/new"⟩).interface.toList := by decide
  have hall : LeftAlone (callPeer ⟨"Notes", "all"⟩) :=
    leftAlone_callPeer ⟨List.all_eq_true.1 (by decide), by decide⟩
      ⟨List.all_eq_true.1 (by decide), by decide⟩
  have hnew : LeftAlone (callPeer ⟨"Notes", "all/new"⟩) :=
    leftAlone_callPeer ⟨List.all_eq_true.1 (by decide), by decide⟩
      ⟨List.all_eq_true.1 (by decide), by decide⟩
  obtain ⟨-, happart, -, hread⟩ := addresses_tell_apart 0 1 (a := callPeer ⟨"Notes", "all/new"⟩)
    (b := callPeer ⟨"Notes", "all"⟩) rfl
  have hurl := happart (by decide) (.inl ⟨hslash, hslash⟩)
  obtain ⟨u, v, hu, hv, hlines, hline, hnames⟩ := hread hnew hall
  refine ⟨hurl, u, v, hu, hv, fun hsame => hurl (hlines.1 hsame), hline.trans ?_, ?_⟩
  · decide +kernel
  · exact hnames.byFirst hslash

end BindingRegistry
