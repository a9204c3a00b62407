import BindingRegistry.Proofs.Remote.Address

/-!
Paths that reading leaves alone. Their characters stand for themselves, and no
segment stands for a directory. Every path an address is read with is one, they
are closed under joining by a slash, and they are read as they stand.
-/
namespace BindingRegistry.Remote

/-- What stands for itself in the path of an address of the web. -/
def isPathChar (c : Char) : Bool := isGraphic c && !Url.pathSet.contains c && c ≠ '\\'

/-- What reading leaves alone behind the first slash of a path. -/
structure PlainPath (cs : List Char) : Prop where
  chars : ∀ c ∈ cs, isPathChar c = true
  segments : ∀ seg ∈ Text.splitWhere (· = '/') cs,
    Url.isDot seg = false ∧ Url.isDoubleDot seg = false

namespace PlainPath

theorem nil : PlainPath [] where
  chars := nofun
  segments := by
    intro seg hseg
    rw [List.mem_singleton.1 hseg]
    decide

/-- Segments lie on either side of the slash. -/
theorem append_iff {as bs : List Char} :
    PlainPath (as ++ '/' :: bs) ↔ PlainPath as ∧ PlainPath bs := by
  have hsplit : Text.splitWhere (· = '/') (as ++ '/' :: bs) =
      Text.splitWhere (· = '/') as ++ Text.splitWhere (· = '/') bs :=
    Text.splitWhere_append (by simp) as bs
  constructor
  · intro h
    refine ⟨⟨fun c hc => h.chars c (by simp [hc]), fun seg hseg => h.segments seg ?_⟩,
      ⟨fun c hc => h.chars c (by simp [hc]), fun seg hseg => h.segments seg ?_⟩⟩
    · rw [hsplit]
      exact List.mem_append_left _ hseg
    · rw [hsplit]
      exact List.mem_append_right _ hseg
  · rintro ⟨ha, hb⟩
    refine ⟨fun c hc => ?_, fun seg hseg => ?_⟩
    · rcases List.mem_append.1 hc with hc | hc
      · exact ha.chars c hc
      · rcases List.mem_cons.1 hc with rfl | hc
        · decide
        · exact hb.chars c hc
    · rw [hsplit] at hseg
      rcases List.mem_append.1 hseg with hseg | hseg
      · exact ha.segments seg hseg
      · exact hb.segments seg hseg

end PlainPath

theorem resolveDots_of_plain {segs : List (List Char)}
    (h : ∀ seg ∈ segs, Url.isDot seg = false ∧ Url.isDoubleDot seg = false)
    (acc : List (List Char)) : Url.resolveDots acc segs = acc.reverse ++ segs := by
  induction segs generalizing acc with
  | nil => simp [Url.resolveDots]
  | cons seg segs ih =>
    obtain ⟨⟨hdot, hdouble⟩, hsegs⟩ := List.forall_mem_cons.1 h
    cases segs with
    | nil => simp [Url.resolveDots, hdot, hdouble]
    | cons next segs =>
      rw [Url.resolveDots, if_neg (by simp [hdouble]), if_neg (by simp [hdot]), ih hsegs]
      · simp
      · simp

/-- The empty segment is the only one that is made. -/
theorem all_resolveDots {P : List Char → Prop} (hnil : P []) {acc segs : List (List Char)}
    (hacc : ∀ seg ∈ acc, P seg)
    (hsegs : ∀ seg ∈ segs, Url.isDot seg = false → Url.isDoubleDot seg = false → P seg) :
    ∀ seg ∈ Url.resolveDots acc segs, P seg := by
  have hdrop {acc : List (List Char)} (hacc : ∀ seg ∈ acc, P seg) : ∀ seg ∈ acc.drop 1, P seg :=
    fun seg hseg => hacc seg (List.mem_of_mem_drop hseg)
  have hreverse {acc : List (List Char)} (hacc : ∀ seg ∈ acc, P seg) :
      ∀ seg ∈ acc.reverse, P seg :=
    fun seg hseg => hacc seg (List.mem_reverse.1 hseg)
  induction acc, segs using Url.resolveDots.induct with
  | case1 acc =>
    rw [Url.resolveDots]
    exact hreverse hacc
  | case2 acc last hdouble =>
    rw [Url.resolveDots, if_pos hdouble]
    exact hreverse (List.forall_mem_cons.2 ⟨hnil, hdrop hacc⟩)
  | case3 acc last hdouble hdot =>
    rw [Url.resolveDots, if_neg hdouble, if_pos hdot]
    exact hreverse (List.forall_mem_cons.2 ⟨hnil, hacc⟩)
  | case4 acc last hdouble hdot =>
    have hlast := hsegs last List.mem_cons_self (Bool.eq_false_iff.2 hdot)
      (Bool.eq_false_iff.2 hdouble)
    rw [Url.resolveDots, if_neg hdouble, if_neg hdot]
    exact hreverse (List.forall_mem_cons.2 ⟨hlast, hacc⟩)
  | case5 acc first rest hne hdouble ih =>
    rw [Url.resolveDots, if_pos hdouble]
    · exact ih (hdrop hacc) (List.forall_mem_cons.1 hsegs).2
    · exact hne
  | case6 acc first rest hne hdouble hdot ih =>
    rw [Url.resolveDots, if_neg hdouble, if_pos hdot]
    · exact ih hacc (List.forall_mem_cons.1 hsegs).2
    · exact hne
  | case7 acc first rest hne hdouble hdot ih =>
    obtain ⟨hfirst, hrest⟩ := List.forall_mem_cons.1 hsegs
    have hfirst := hfirst (Bool.eq_false_iff.2 hdot) (Bool.eq_false_iff.2 hdouble)
    rw [Url.resolveDots, if_neg hdouble, if_neg hdot]
    · exact ih (List.forall_mem_cons.2 ⟨hfirst, hacc⟩) hrest
    · exact hne

theorem isPathChar_iff {c : Char} :
    isPathChar c = true ↔ isGraphic c = true ∧ c ∉ Url.pathSet ∧ c ≠ '\\' := by
  simp [isPathChar, and_assoc]

/-- A path of plain segments is read as it stands. -/
theorem PlainPath.absolutePath {cs : List Char} (h : PlainPath cs) :
    Url.absolutePath true ('/' :: cs) = '/' :: cs := by
  have hsplit : Text.splitWhere (fun c => c = '/' || (true && c = '\\')) cs =
      Text.splitWhere (· = '/') cs :=
    Text.splitWhere_congr fun c hc => by simp [(isPathChar_iff.1 (h.chars c hc)).2.2]
  have hencode : (Text.splitWhere (· = '/') cs).map (percentEncode Url.pathSet) =
      Text.splitWhere (· = '/') cs := by
    rw [List.map_congr_left (g := id), List.map_id]
    intro seg hseg
    refine percentEncode_eq_self fun c hc => ?_
    have hchar := isPathChar_iff.1 (h.chars c (Text.mem_of_mem_splitWhere hseg hc).1)
    exact ⟨hchar.1, hchar.2.1⟩
  calc Url.absolutePath true ('/' :: cs)
    _ = '/' :: List.intercalate ['/'] (Url.resolveDots []
          ((Text.splitWhere (fun c => c = '/' || (true && c = '\\')) cs).map
            (percentEncode Url.pathSet))) := rfl
    _ = '/' :: List.intercalate ['/'] (Text.splitWhere (· = '/') cs) := by
      rw [hsplit, hencode, resolveDots_of_plain h.segments]
      rfl
    _ = '/' :: cs := by rw [Text.intercalate_splitWhere]

/-- A segment that is written into a path. -/
theorem plainPath_percentEncode {cs seg : List Char}
    (hseg : seg ∈ Text.splitWhere (fun c => c = '/' || (true && c = '\\')) cs)
    (hdot : Url.isDot (percentEncode Url.pathSet seg) = false)
    (hdouble : Url.isDoubleDot (percentEncode Url.pathSet seg) = false) :
    PlainPath (percentEncode Url.pathSet seg) := by
  have hchars : ∀ c ∈ percentEncode Url.pathSet seg, (isPathChar c && c ≠ '/') = true := by
    refine all_percentEncode (by decide) (by decide) fun c hc hlow hhigh hset => ?_
    have hsep := (Text.mem_of_mem_splitWhere hseg hc).2
    have hspace : c ≠ ' ' := by
      rintro rfl
      exact hset (by decide)
    simp only [Bool.true_and, Bool.or_eq_false_iff, decide_eq_false_iff_not] at hsep
    simp [isPathChar_iff, isGraphic_of_bounds hlow hhigh hspace, hset, hsep]
  have hsplit : Text.splitWhere (· = '/') (percentEncode Url.pathSet seg) =
      [percentEncode Url.pathSet seg] :=
    Text.splitWhere_eq_singleton fun c hc => by
      simpa using (Bool.and_eq_true_iff.1 (hchars c hc)).2
  refine ⟨fun c hc => (Bool.and_eq_true_iff.1 (hchars c hc)).1, fun part hpart => ?_⟩
  rw [hsplit] at hpart
  rw [List.mem_singleton.1 hpart]
  exact ⟨hdot, hdouble⟩

theorem PlainPath.intercalate {segs : List (List Char)} (h : ∀ seg ∈ segs, PlainPath seg) :
    PlainPath (List.intercalate ['/'] segs) := by
  induction segs with
  | nil => exact .nil
  | cons seg segs ih =>
    obtain ⟨hseg, hsegs⟩ := List.forall_mem_cons.1 h
    cases segs with
    | nil => simpa using hseg
    | cons next segs =>
      rw [List.intercalate_cons_cons, List.append_assoc]
      exact append_iff.2 ⟨hseg, ih hsegs⟩

/-- Whatever is read as a path is left alone when it is read again. -/
theorem exists_plainPath (cs : List Char) :
    ∃ path, Url.absolutePath true cs = '/' :: path ∧ PlainPath path := by
  refine ⟨_, rfl, .intercalate (all_resolveDots .nil nofun fun seg hseg hdot hdouble => ?_)⟩
  obtain ⟨part, hpart, rfl⟩ := List.mem_map.1 hseg
  exact plainPath_percentEncode hpart hdot hdouble

end BindingRegistry.Remote
