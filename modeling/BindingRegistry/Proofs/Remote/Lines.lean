import Mathlib.Data.List.DropRight
import BindingRegistry.Proofs.Remote.Path
import BindingRegistry.Remote.Request

/-!
What is requested of an endpoint. A text of scheme, authority and plain path is taken
apart where these meet. So if reading leaves the endpoint alone, and the names too, the
request is for the path of the endpoint with the names behind it as they stand.
-/
namespace BindingRegistry.Remote

theorem cleaned_eq_self {cs : List Char} (h : ∀ c ∈ cs, isGraphic c = true) :
    Url.cleaned cs = cs := by
  have hhigh {c : Char} (hc : isGraphic c = true) : ¬c.toNat ≤ 32 := by
    simp only [isGraphic, Bool.and_eq_true, decide_eq_true_eq] at hc
    omega
  have hdrop {cs : List Char} (h : ∀ c ∈ cs, isGraphic c = true) :
      cs.dropWhile (fun c => c.toNat ≤ 32) = cs := by
    cases cs with
    | nil => rfl
    | cons c cs => exact List.dropWhile_cons_of_neg (by simpa using hhigh (h c (by simp)))
  have htrim : Text.trimList (fun c => c.toNat ≤ 32) cs = cs := by
    rw [Text.trimList, hdrop h, hdrop fun c hc => h c (List.mem_reverse.1 hc), List.reverse_reverse]
  rw [Url.cleaned, htrim, List.filter_eq_self]
  intro c hc
  have hne {d : Char} (hd : isGraphic d = false) : c ≠ d := by
    rintro rfl
    rw [h c hc] at hd
    cases hd
  simp [hne (d := '\t') (by decide), hne (d := '\n') (by decide), hne (d := '\r') (by decide)]

/-- The schemes of the web, that of files excepted. -/
def HasPort (scheme : List Char) : Prop := (Url.defaultPort? (String.ofList scheme)).isSome = true

section

variable {scheme : List Char} (h : HasPort scheme)

include h

theorem HasPort.cases : scheme = "http".toList ∨ scheme = "ws".toList ∨
    scheme = "https".toList ∨ scheme = "wss".toList ∨ scheme = "ftp".toList := by
  have hlist {s : String} : scheme = s.toList ↔ String.ofList scheme = s := by
    rw [← String.toList_inj, String.toList_ofList]
  simp only [hlist]
  by_contra hnot
  simp only [not_or] at hnot
  simp [HasPort, Url.defaultPort?, hnot] at h

theorem HasPort.isGraphic : ∀ c ∈ scheme, isGraphic c = true := by
  rw [← List.all_eq_true]
  rcases h.cases with rfl | rfl | rfl | rfl | rfl <;> decide

theorem HasPort.takeScheme? (cs : List Char) :
    Url.takeScheme? (scheme ++ ':' :: cs) = some (scheme, cs) := by
  rcases h.cases with rfl | rfl | rfl | rfl | rfl <;> rfl

theorem HasPort.isWebScheme : Url.isWebScheme (String.ofList scheme) = true := by
  rw [Url.isWebScheme, h, Bool.true_or]

theorem HasPort.ne_file : String.ofList scheme ≠ "file" := by
  intro hfile
  rw [HasPort, hfile] at h
  exact absurd h (by decide)

end

/-- The text of an address with a plain path and nothing behind it. -/
def plainChars (scheme authority path : List Char) : List Char :=
  scheme ++ ':' :: '/' :: '/' :: (authority ++ '/' :: path)

section

variable {scheme authority path : List Char}

theorem isGraphic_of_mem_plainChars (h : HasPort scheme)
    (hauthority : ∀ c ∈ authority, isInner c = true) (hpath : PlainPath path) :
    ∀ c ∈ plainChars scheme authority path, isGraphic c = true := by
  intro c hc
  simp only [plainChars, List.mem_append, List.mem_cons] at hc
  rcases hc with hc | rfl | rfl | rfl | hc | rfl | hc
  · exact h.isGraphic c hc
  · decide
  · decide
  · decide
  · exact (Bool.and_eq_true_iff.1 (hauthority c hc)).1
  · decide
  · exact (isPathChar_iff.1 (hpath.chars c hc)).1

theorem splitRest_plain (hpath : PlainPath path) :
    Url.splitRest ('/' :: path) = ('/' :: path, none, none) := by
  have hnot {d : Char} (hd : d ∈ Url.pathSet) (hslash : d ≠ '/') : d ∉ '/' :: path := by
    rw [List.mem_cons, not_or]
    exact ⟨hslash, fun hmem => (isPathChar_iff.1 (hpath.chars d hmem)).2.1 hd⟩
  have hfragment : '#' ∉ '/' :: path := hnot (by decide) (by decide)
  have hquery : '?' ∉ '/' :: path := hnot (by decide) (by decide)
  simp only [Url.splitRest, Text.cutAt?_of_notMem hfragment, Text.cutAt?_of_notMem hquery]

/-- The authority ends at the first slash, and all behind it is path. -/
theorem withHost_plain (h : HasPort scheme) (hauthority : ∀ c ∈ authority, isInner c = true)
    (hpath : PlainPath path) :
    Url.withHost scheme (authority ++ '/' :: path) =
      (Url.authorityOf (String.ofList scheme) authority).map
        fun a => ⟨scheme, some a, '/' :: path, none, none⟩ := by
  have hfront : (authority ++ '/' :: path).takeWhile (fun c => !Url.endsAuthority true c) =
      authority := by
    rw [List.takeWhile_append_of_pos fun c hc => (Bool.and_eq_true_iff.1 (hauthority c hc)).2,
      List.takeWhile_cons_of_neg (by decide), List.append_nil]
  rw [Url.withHost, h.isWebScheme]
  simp only [hfront, List.drop_left, splitRest_plain hpath, hpath.absolutePath]
  cases Url.authorityOf (String.ofList scheme) authority with
  | error fault => rfl
  | ok a => rfl

/-- An address is read piece by piece; only its authority can be refused. -/
theorem parse_plain (h : HasPort scheme) (hne : authority ≠ [])
    (hauthority : ∀ c ∈ authority, isInner c = true) (hpath : PlainPath path) :
    Url.parse (String.ofList (plainChars scheme authority path)) =
      (Url.authorityOf (String.ofList scheme) authority).map
        fun a => ⟨scheme, some a, '/' :: path, none, none⟩ := by
  have hslashes : ('/' :: '/' :: (authority ++ '/' :: path)).dropWhile
      (fun c => c = '/' || c = '\\') = authority ++ '/' :: path := by
    obtain ⟨c, cs, rfl⟩ := List.exists_cons_of_ne_nil hne
    have hc := (Bool.and_eq_true_iff.1 (hauthority c List.mem_cons_self)).2
    simp only [Url.endsAuthority, Bool.not_eq_true', Bool.or_eq_false_iff, Bool.true_and] at hc
    rw [List.dropWhile_cons_of_pos rfl, List.dropWhile_cons_of_pos rfl, List.cons_append,
      List.dropWhile_cons_of_neg (by simp [hc])]
  rw [Url.parse, String.toList_ofList,
    cleaned_eq_self (isGraphic_of_mem_plainChars h hauthority hpath), plainChars, h.takeScheme?]
  simp only [if_neg h.ne_file, if_pos h.isWebScheme, hslashes]
  exact withHost_plain h hauthority hpath

end

theorem scheme_of_fileUrl {cs : List Char} {u : Url} (h : Url.fileUrl cs = .ok u) :
    u.scheme = "file".toList := by
  unfold Url.fileUrl at h
  dsimp only [bind, Except.bind, pure, Except.pure] at h
  split at h
  · cases h
  · cases h
    rfl

theorem of_withHost {scheme cs : List Char} {u : Url} (h : Url.withHost scheme cs = .ok u) :
    u.scheme = scheme ∧ (Url.isWebScheme (String.ofList scheme) = true →
      ∃ front path a, Url.authorityOf (String.ofList scheme) front = .ok a ∧
        u.authority = some a ∧ u.path = Url.absolutePath true path) := by
  unfold Url.withHost at h
  dsimp only [bind, Except.bind, pure, Except.pure] at h
  split at h
  · cases h
  · next ha =>
    cases h
    refine ⟨rfl, fun hweb => ?_⟩
    rw [hweb] at ha
    let front := cs.takeWhile fun c => !Url.endsAuthority true c
    refine ⟨front, (Url.splitRest (cs.drop front.length)).1, _, ha, rfl, ?_⟩
    simp only [hweb, Bool.true_or, if_true, front]

/-- Where an address of the web comes from. -/
theorem of_parse {s : String} {u : Url} (hread : Url.parse s = .ok u) (h : HasPort u.scheme) :
    ∃ front path a, Url.authorityOf (String.ofList u.scheme) front = .ok a ∧
      u.authority = some a ∧ u.path = Url.absolutePath true path := by
  unfold Url.parse at hread
  split at hread
  · cases hread
  · next scheme rest _ =>
    dsimp only at hread
    split at hread
    · exact absurd (by rw [scheme_of_fileUrl hread]; rfl) h.ne_file
    · split at hread
      · next hweb =>
        obtain ⟨hscheme, hparts⟩ := of_withHost hread
        rw [hscheme]
        exact hparts hweb
      · next hweb =>
        refine absurd ?_ hweb
        split at hread
        · rw [← (of_withHost hread).1]
          exact h.isWebScheme
        · cases hread
          exact h.isWebScheme

/-- An address that reading leaves alone, of the web and without query or fragment. -/
structure Settled (u : Url) : Prop where
  hasPort : HasPort u.scheme
  query : u.query = none
  fragment : u.fragment = none
  read : Url.parse u.text = .ok u

/-- An address that was read has only characters that stand for themselves, so reading takes it
apart at the same places as writing put it together. -/
theorem Settled.exists_plain {u : Url} (h : Settled u) : ∃ authority path a,
    u = ⟨u.scheme, some a, '/' :: path, none, none⟩ ∧
      u.chars = plainChars u.scheme authority path ∧ authority ≠ [] ∧
      (∀ c ∈ authority, isInner c = true) ∧ PlainPath path ∧
      Url.authorityOf (String.ofList u.scheme) authority = .ok a := by
  obtain ⟨front, written, a, ha, hauthority, hpath⟩ := of_parse h.read h.hasPort
  obtain ⟨huser, hne, hhost⟩ := inner_of_authorityOf h.hasPort.isWebScheme ha
  obtain ⟨authority, htext, hne, hinner⟩ := authorityText_eq huser hne hhost
  obtain ⟨path, habsolute, hplain⟩ := exists_plainPath written
  have hpath := hpath.trans habsolute
  have hu : u = ⟨u.scheme, some a, '/' :: path, none, none⟩ := by
    rw [← hauthority, ← hpath]
    conv_lhs => rw [show u = ⟨u.scheme, u.authority, u.path, u.query, u.fragment⟩ from rfl]
    rw [h.query, h.fragment]
  have hchars : u.chars = plainChars u.scheme authority path := by
    simp [Url.chars, plainChars, hauthority, hpath, h.query, h.fragment, Url.optionalPart, htext]
  refine ⟨authority, path, a, hu, hchars, hne, hinner, hplain, ?_⟩
  have hread := h.read
  rw [Url.text, hchars, parse_plain h.hasPort hne hinner hplain] at hread
  cases hold : Url.authorityOf (String.ofList u.scheme) authority with
  | error fault =>
    rw [hold] at hread
    cases hread
  | ok b =>
    rw [hold] at hread
    have hb : some b = u.authority := congrArg Url.authority (Except.ok.inj hread)
    rw [hauthority] at hb
    rw [Option.some.inj hb]

def withoutSlashes (cs : List Char) : List Char := cs.rdropWhile (· = '/')

theorem withoutSlashes_append {as : List Char} (h : ∀ hne : as ≠ [], as.getLast hne ≠ '/')
    (bs : List Char) : withoutSlashes (as ++ bs) = as ++ withoutSlashes bs := by
  induction bs using List.reverseRecOn with
  | nil =>
    rw [List.append_nil]
    exact (List.rdropWhile_eq_self_iff.2 (by simpa using h)).trans (List.append_nil as).symm
  | append_singleton bs b ih =>
    unfold withoutSlashes at ih ⊢
    rw [← List.append_assoc]
    by_cases hb : b = '/'
    · rw [List.rdropWhile_concat_pos _ _ _ (by simpa using hb),
        List.rdropWhile_concat_pos _ _ _ (by simpa using hb), ih]
    · rw [List.rdropWhile_concat_neg _ _ _ (by simpa using hb),
        List.rdropWhile_concat_neg _ _ _ (by simpa using hb), List.append_assoc]

/-- A plain path is still one if its last slashes make room for another. -/
theorem PlainPath.join {path rest : List Char} (h : PlainPath path) (hrest : PlainPath rest) :
    ∃ cs, withoutSlashes ('/' :: path) ++ '/' :: rest = '/' :: cs ∧ PlainPath cs := by
  induction path using List.reverseRecOn with
  | nil => exact ⟨rest, rfl, hrest⟩
  | append_singleton path c ih =>
    unfold withoutSlashes at ih ⊢
    rw [← List.cons_append]
    by_cases hc : c = '/'
    · rw [List.rdropWhile_concat_pos _ _ _ (by simpa using hc)]
      subst hc
      exact ih (append_iff.1 h).1
    · rw [List.rdropWhile_concat_neg _ _ _ (by simpa using hc)]
      exact ⟨path ++ [c] ++ '/' :: rest, by simp, append_iff.2 ⟨h, hrest⟩⟩

/-- How a binding is named behind an endpoint. -/
def bindingChars (call : RemoteCall) : List Char :=
  call.interface.toList ++ '/' :: call.method.toList

theorem toList_targetText (call : RemoteCall) : (targetText call).toList =
    withoutSlashes call.endpoint.chars ++ '/' :: bindingChars call := by
  simp [targetText, withoutSlashes, List.rdropWhile, bindingChars, Url.text]

/-- The address of a call to an endpoint and with names that reading leaves alone. -/
def plainTarget (call : RemoteCall) : Url :=
  { call.endpoint with path := withoutSlashes call.endpoint.path ++ '/' :: bindingChars call }

/-- Endpoint and names are read as they stand. -/
theorem parse_targetText {call : RemoteCall} (h : Settled call.endpoint)
    (hinterface : PlainPath call.interface.toList) (hmethod : PlainPath call.method.toList) :
    Url.parse (targetText call) = .ok (plainTarget call) := by
  obtain ⟨authority, path, a, hu, hchars, hne, hinner, hpath, ha⟩ := h.exists_plain
  obtain ⟨cs, hcs, hplain⟩ := hpath.join (PlainPath.append_iff.2 ⟨hinterface, hmethod⟩)
  have hbase : withoutSlashes call.endpoint.chars =
      (call.endpoint.scheme ++ [':', '/', '/'] ++ authority) ++ withoutSlashes ('/' :: path) := by
    rw [hchars, ← withoutSlashes_append]
    · simp [plainChars]
    · intro hne'
      rw [List.getLast_append_of_ne_nil hne' hne]
      intro hlast
      have hslash := hinner _ (List.getLast_mem hne)
      rw [hlast] at hslash
      exact absurd hslash (by decide)
  have htext : targetText call = String.ofList (plainChars call.endpoint.scheme authority cs) := by
    rw [← String.toList_inj, toList_targetText, hbase, String.toList_ofList, List.append_assoc]
    unfold bindingChars
    rw [hcs]
    simp [plainChars]
  have htarget : plainTarget call = ⟨call.endpoint.scheme, some a, '/' :: cs, none, none⟩ := by
    rw [← hcs, plainTarget]
    conv_lhs => rw [hu]
    rfl
  rw [htext, parse_plain h.hasPort hne hinner hplain, ha, htarget]
  rfl

/-- The line of a request to an endpoint and for names that reading leaves alone. -/
theorem line_plainTarget {call : RemoteCall} (h : Settled call.endpoint) :
    Request.line (plainTarget call) = "POST " ++
      String.ofList (withoutSlashes call.endpoint.path ++ '/' :: bindingChars call) ++
        " HTTP/1.1" := by
  simp [Request.line, plainTarget, h.query]

end BindingRegistry.Remote
