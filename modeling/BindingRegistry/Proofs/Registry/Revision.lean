import BindingRegistry.Proofs.Registry.Ledger

/-!
What the revision of a registry counts. Hosts change a registry, expose and
select by patterns and invoke bindings, in any order. The revision counts the
bindings put in and those taken out, one by one, and nothing else moves it; what
is refused or finds nothing leaves the registry as it was. So as long as the
revision stands still, the same names are bound to the same callables.
-/
namespace BindingRegistry

variable {σ : Type}

inductive Use (σ : Type) where
  | change (c : Change σ)
  | exposeMatching (interface pattern : String) (members : List (Member σ))
  | adjustMatching (pattern : String) (a : Adjustment σ)
  | removeMatching (pattern : String)
  | invoke (n : QualifiedName) (call : Injections) (args : List Value)

def Use.Configures : Use σ → Prop
  | change (.adjust ..) | change (.adjustEach ..) | change (.declareGlobal _)
  | change (.registerConverter ..) | change (.unregisterConverter _)
  | change (.extendConverters _) | adjustMatching .. | invoke .. => True
  | _ => False

/-- Whether a registry refuses a use or has nothing for it. A text that is no pattern admits no
name. -/
def Use.Futile (r : Registry σ) : Use σ → Prop
  | change (.registerRemote _ endpoint ..) => ∃ fault, Remote.Url.parse endpoint = .error fault
  | change (.expose _ wanted members) => Member.exposed wanted members = []
  | change (.remove n) | change (.adjust n _) | invoke n .. => r.lookup n = none
  | change (.removeInterface interface) => interface ∉ r.interfaceNames
  | change (.removeEach names) | change (.adjustEach names _) => ∀ n ∈ names, r.lookup n = none
  | change (.unregisterConverter t) => r.converters.contains t = false
  | exposeMatching _ pattern members =>
    ∀ p, Pattern.parse? pattern = some p → Member.exposed p.matchesSome members = []
  | adjustMatching pattern _ | removeMatching pattern =>
    ∀ p, Pattern.parse? pattern = some p → r.selectMatching p.matchesSome = []
  | _ => False

namespace Registry

def serve (r : Registry σ) (s : σ) : Use σ → Registry σ × σ
  | .change c => (r.apply c, s)
  | .exposeMatching interface pattern members =>
    match r.exposePattern interface pattern members with
    | .ok exposed => (exposed.value.1, s)
    | .error _ => (r, s)
  | .adjustMatching pattern a =>
    match r.selectPattern pattern with
    | .ok names => (r.updateEach names a.apply, s)
    | .error _ => (r, s)
  | .removeMatching pattern =>
    match r.selectPattern pattern with
    | .ok names => ((r.removeEach names).value.1, s)
    | .error _ => (r, s)
  | .invoke n call args => (r, ((r.invoke n call args).result s).2)

def serveAll (r : Registry σ) (s : σ) (us : List (Use σ)) : Registry σ × σ :=
  us.foldl (fun p u => p.1.serve p.2 u) (r, s)

theorem serveAll_append (r : Registry σ) (s : σ) (us vs : List (Use σ)) :
    r.serveAll s (us ++ vs) = (r.serveAll s us).1.serveAll (r.serveAll s us).2 vs :=
  List.foldl_append

/-- The change that a use comes to, if it is one. -/
def changeOf (r : Registry σ) : Use σ → Option (Change σ)
  | .change c => some c
  | .exposeMatching interface pattern members =>
    (admitted pattern).toOption.map fun wanted => .expose interface wanted members
  | .adjustMatching pattern a => (r.selectPattern pattern).toOption.map (.adjustEach · a)
  | .removeMatching pattern => (r.selectPattern pattern).toOption.map .removeEach
  | .invoke .. => none

def editsOf (r : Registry σ) (u : Use σ) : List (Edit σ) := (r.changeOf u).elim [] r.edits

/-- What a sequence of uses puts in and takes out, in order. -/
def ledger (r : Registry σ) (s : σ) : List (Use σ) → List (Edit σ)
  | [] => []
  | u :: us => r.editsOf u ++ (r.serve s u).1.ledger (r.serve s u).2 us

/-- The books of a registry that began without bindings: its revision counts what was put in and
taken out, its size is what was put in less what was overwritten and what was taken out, and its
callables are those that the ledger leaves. -/
structure Balanced (r : Registry σ) (es : List (Edit σ)) : Prop where
  revision : r.revision = puts es + drops es
  size : r.size + Callables.overwrites (fun _ => none) es + drops es = puts es
  callables : r.callables = Callables.replay (fun _ => none) es
  fits : Callables.Fits (fun _ => none) es

theorem serve_fst (r : Registry σ) (s : σ) (u : Use σ) :
    (r.serve s u).1 = (r.changeOf u).elim r r.apply := by
  cases u with
  | change c => rfl
  | exposeMatching interface pattern members =>
    rw [serve, changeOf, exposePattern]
    cases admitted pattern with
    | ok wanted => rfl
    | error e => rfl
  | adjustMatching pattern a =>
    rw [serve, changeOf]
    cases r.selectPattern pattern with
    | ok names => rfl
    | error e => rfl
  | removeMatching pattern =>
    rw [serve, changeOf]
    cases r.selectPattern pattern with
    | ok names => rfl
    | error e => rfl
  | invoke n call args => rfl

theorem booked_serve (r : Registry σ) (s : σ) (u : Use σ) :
    r.Booked (r.editsOf u) (r.serve s u).1 := by
  rw [serve_fst, editsOf]
  cases r.changeOf u with
  | none => exact .refl r
  | some c => exact booked_apply r c

theorem booked_serveAll (r : Registry σ) (s : σ) (us : List (Use σ)) :
    r.Booked (r.ledger s us) (r.serveAll s us).1 := by
  induction us generalizing r s with
  | nil => exact .refl r
  | cons u us ih => exact (booked_serve r s u).trans (ih (r.serve s u).1 (r.serve s u).2)

theorem kept_serveAll {r : Registry σ} (h : r.Kept) (s : σ) (us : List (Use σ)) :
    (r.serveAll s us).1.Kept := by
  induction us generalizing r s with
  | nil => exact h
  | cons u us ih =>
    refine @ih (r.serve s u).1 ?_ (r.serve s u).2
    rw [serve_fst]
    cases r.changeOf u with
    | none => exact h
    | some c => exact kept_apply c h

theorem revision_built (settings : List Builder.Setting) :
    (Builder.registryOf settings : Logged (Registry σ)).value.revision = 0 := by
  rw [Builder.registryOf_value, Builder.build_value]

theorem callables_built (settings : List Builder.Setting) :
    (Builder.registryOf settings : Logged (Registry σ)).value.callables = fun _ => none := by
  funext n
  rw [callables, lookup_built]
  rfl

/-- From an empty start, the books give revision and size. -/
theorem Booked.balanced {r r' : Registry σ} {es : List (Edit σ)} (h : r.Booked es r')
    (hrevision : r.revision = 0) (hcallables : r.callables = fun _ => none) (hkept : r'.Kept) :
    r'.Balanced es where
  revision := by rw [h.revision, hrevision, Nat.zero_add, puts_add_drops]
  size := by
    have hnames : Callables.names r'.callables = FlatMap.names r'.lookup := by
      ext n
      rw [Callables.names, FlatMap.names, Set.mem_ofPred_eq, Set.mem_ofPred_eq, isSome_callables]
    have hnone : Callables.names (fun _ => none : Callables σ) = ∅ := by
      ext n
      simp [Callables.names]
    have hfits : Callables.Fits (fun _ => none) es := hcallables ▸ h.fits
    have hcount := Callables.ncard_names_replay (hnone ▸ Set.finite_empty) hfits
    rw [← hcallables, ← h.callables, hnames, ← hkept.size_eq_ncard, hcallables, hnone,
      Set.ncard_empty, Nat.zero_add] at hcount
    exact hcount
  callables := by rw [h.callables, hcallables]
  fits := hcallables ▸ h.fits

/-- As long as the revision stands still nothing is put in or taken out. -/
theorem Booked.callables_eq {r r' : Registry σ} {es : List (Edit σ)} (h : r.Booked es r')
    (hrevision : r'.revision = r.revision) : r'.callables = r.callables := by
  have hlength : es.length = 0 := by
    have := h.revision
    omega
  rw [h.callables, List.eq_nil_of_length_eq_zero hlength]
  rfl

/-- Configuring is not counted. -/
theorem editsOf_configures {u : Use σ} (h : u.Configures) (r : Registry σ) :
    r.editsOf u = [] := by
  cases u with
  | change c =>
    cases c with
    | adjust | adjustEach | declareGlobal | registerConverter | unregisterConverter
    | extendConverters => rfl
    | _ => exact h.elim
  | adjustMatching pattern a =>
    rw [editsOf, changeOf]
    cases r.selectPattern pattern with
    | ok names => rfl
    | error e => rfl
  | invoke => rfl
  | _ => exact h.elim

theorem updateEach_of_none {r : Registry σ} {names : List QualifiedName}
    (h : ∀ n ∈ names, r.lookup n = none) (f : Binding σ → Binding σ) :
    r.updateEach names f = r := by
  rw [updateEach]
  induction names with
  | nil => rfl
  | cons n ns ih =>
    rw [List.foldl_cons, update_of_none (h n List.mem_cons_self)]
    exact ih fun k hk => h k (List.mem_cons_of_mem _ hk)

theorem remove_of_none {r : Registry σ} {n : QualifiedName} (h : r.lookup n = none) :
    (r.remove n).value.1 = r := by
  rw [remove, h]
  rfl

theorem removeEach_of_none {r : Registry σ} {names : List QualifiedName}
    (h : ∀ n ∈ names, r.lookup n = none) : (r.removeEach names).value.1 = r := by
  induction names with
  | nil => rfl
  | cons n ns ih =>
    change ((r.remove n).value.1.removeEach ns).value.1 = r
    rw [remove_of_none (h n List.mem_cons_self)]
    exact ih fun k hk => h k (List.mem_cons_of_mem _ hk)

theorem removeInterface_of_not_mem {r : Registry σ} {i : String} (h : i ∉ r.interfaceNames) :
    (r.removeInterface i).value.1 = r := by
  have hnone : r.interfaces.get? i = none := by
    rw [interfaceNames, Dict.mem_keys, Option.not_isSome_iff_eq_none] at h
    exact h
  rw [removeInterface, hnone]
  rfl

/-- What is refused or finds nothing changes nothing. -/
theorem apply_of_futile {r : Registry σ} {c : Change σ} (h : (Use.change c).Futile r) :
    r.apply c = r := by
  cases c with
  | registerRemote n endpoint =>
    obtain ⟨fault, hfault⟩ := h
    rw [apply, registerRemote, hfault]
    rfl
  | expose interface wanted members =>
    rw [apply, expose_value, show Member.exposed wanted members = [] from h]
    rfl
  | adjust n a => exact update_of_none h _
  | adjustEach names a => exact updateEach_of_none h _
  | remove n => exact remove_of_none h
  | removeInterface i => exact removeInterface_of_not_mem h
  | removeEach names => exact removeEach_of_none h
  | unregisterConverter t =>
    rw [apply, TypeMap.erase_of_contains_false h]
  | _ => exact h.elim

/-- What is refused or finds nothing leaves everything as it was. -/
theorem serve_of_futile {r : Registry σ} {u : Use σ} (h : u.Futile r) (s : σ) :
    r.serve s u = (r, s) := by
  cases u with
  | change c => rw [serve, apply_of_futile h]
  | exposeMatching interface pattern members =>
    rw [serve, exposePattern, admitted]
    cases hp : Pattern.parse? pattern with
    | none => rfl
    | some p =>
      refine congrArg (·, s) ?_
      rw [expose_value, h p hp]
      rfl
  | adjustMatching pattern a =>
    rw [serve, selectPattern, admitted]
    cases hp : Pattern.parse? pattern with
    | none => rfl
    | some p =>
      refine congrArg (·, s) ?_
      rw [h p hp]
      rfl
  | removeMatching pattern =>
    rw [serve, selectPattern, admitted]
    cases hp : Pattern.parse? pattern with
    | none => rfl
    | some p =>
      refine congrArg (·, s) ?_
      rw [h p hp]
      rfl
  | invoke n call args =>
    rw [serve, invoke, show r.lookup n = none from h]
    rfl

/-- After any sequence of uses the revision of a registry counts the bindings that were put in,
overwriting ones with them, and those that were taken out, and its size is what was put in less
what was overwritten and what was taken out. Configuring and invoking bindings never change the
revision; what is refused or finds nothing changes nothing; and two registries of one run with the
same revision have the same names bound to the same callables. -/
theorem serveAll_accounts (settings : List Builder.Setting) (s : σ) (us : List (Use σ)) :
    let fresh := (Builder.registryOf settings : Logged (Registry σ)).value
    let r := (fresh.serveAll s us).1
    r.Balanced (fresh.ledger s us) ∧
      (∀ s' u, u.Configures → (r.serve s' u).1.revision = r.revision) ∧
      (∀ s' u, u.Futile r → r.serve s' u = (r, s')) ∧
      ∀ later, (fresh.serveAll s (us ++ later)).1.revision = r.revision →
        (fresh.serveAll s (us ++ later)).1.callables = r.callables := by
  intro fresh r
  have hbooked : fresh.Booked (fresh.ledger s us) r := booked_serveAll fresh s us
  refine ⟨?_, fun s' u hu => ?_, fun s' u hu => serve_of_futile hu s', fun later hrevision => ?_⟩
  · exact hbooked.balanced (revision_built settings) (callables_built settings)
      (kept_serveAll (kept_built settings) s us)
  · have hserve := booked_serve r s' u
    rw [editsOf_configures hu] at hserve
    exact hserve.revision
  · have hlater := booked_serveAll r (fresh.serveAll s us).2 later
    rw [← serveAll_append] at hlater
    exact hlater.callables_eq hrevision

/-- A shelf that gets three bindings, one in the place of another, and loses one. -/
def shelfUses : List (Use Unit) :=
  [.change (.register ⟨"Shelf", "top"⟩ (.getter (.typed .bool) (pure true))),
    .change (.register ⟨"Shelf", "low"⟩ (.getter (.typed .bool) (pure true))),
    .change (.register ⟨"Shelf", "top"⟩ (.getter (.typed .bool) (pure false))),
    .change (.removeEach [⟨"Shelf", "low"⟩, ⟨"Shelf", "low"⟩])]

/-- Four bindings went in or out and one is left. An injection into it does not count, and what is
no pattern, or not there any more, is as good as not asked for. -/
theorem shelf_accounts :
    let fresh := (Builder.registryOf [] : Logged (Registry Unit)).value
    let r := (fresh.serveAll () shelfUses).1
    r.revision = 4 ∧ r.size + 1 + 1 = 3 ∧
      (r.serve () (.adjustMatching "top" (.inject ⟨.string, "oak"⟩))).1.revision = 4 ∧
      r.serve () (.change (.remove ⟨"Shelf", "low"⟩)) = (r, ()) ∧
      r.serve () (.removeMatching "(") = (r, ()) ∧
      (fresh.serveAll () (shelfUses ++
        [.change (.adjust ⟨"Shelf", "top"⟩ (.inject ⟨.string, "oak"⟩))])).1.callables =
          r.callables := by
  intro fresh r
  obtain ⟨hbalanced, hconfigures, hfutile, hsame⟩ :=
    serveAll_accounts [] () shelfUses
  have hrevision : r.revision = 4 := hbalanced.revision
  refine ⟨hrevision, hbalanced.size, ?_, ?_, ?_, ?_⟩
  · exact (hconfigures () (.adjustMatching "top" (.inject ⟨.string, "oak"⟩)) trivial).trans hrevision
  · exact hfutile () (.change (.remove _)) rfl
  · exact hfutile () (.removeMatching "(") fun p hp => by cases hp
  · exact hsame _ rfl

end Registry

end BindingRegistry
