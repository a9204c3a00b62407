import BindingRegistry.Proofs.Param.Fallthrough
import BindingRegistry.Proofs.Registry.Defaults

/-!
What a builder makes of the calls to it. A call gives contents to some parts of
the registry to come, a configuration to all three settings and any other call
to one part. A part keeps what it was given last, so calls that give to
different parts may be made in either order. The built-in converters are no such
part: they are put below the given ones at the end, and whether they are is
decided by the flag as it is then.
-/
namespace BindingRegistry

variable {σ : Type}

namespace Builder

inductive Part where
  | defaultInterface
  | defaultMethod
  | defaultConverters
  | converter (t : Ty)
  | global (t : Ty)

@[reducible] def Part.Content : Part → Type
  | .defaultInterface | .defaultMethod => String
  | .defaultConverters => Bool
  | .converter _ => Converter
  | .global t => t.Denote

/-- What a call gives to a part, if it gives anything to it. -/
def Setting.given? : (p : Part) → Setting → Option p.Content
  | .defaultInterface, .config c => some c.defaultInterface
  | .defaultInterface, .defaultInterface name => some name
  | .defaultMethod, .config c => some c.defaultMethod
  | .defaultMethod, .defaultMethod name => some name
  | .defaultConverters, .config c => some c.defaultConverters
  | .defaultConverters, .defaultConverters enabled => some enabled
  | .converter t, .converter t' c => if t' = t then some c else none
  | .global t, .global i => i.cast? t
  | _, _ => none

/-- What the last of the calls that give to a part gives to it. -/
def lastGiven? (p : Part) (settings : List Setting) : Option p.Content :=
  settings.reverse.findSome? (Setting.given? p)

/-- No part is given to by both calls. -/
def Setting.Apart (a b : Setting) : Prop := ∀ p, a.given? p = none ∨ b.given? p = none

section

variable {p : Part} {a b s : Setting} {before since settings : List Setting}

theorem lastGiven?_append (before since : List Setting) :
    lastGiven? p (before ++ since) = (lastGiven? p since).or (lastGiven? p before) := by
  rw [lastGiven?, List.reverse_append, List.findSome?_append]
  rfl

theorem lastGiven?_cons (s : Setting) (settings : List Setting) :
    lastGiven? p (s :: settings) = (lastGiven? p settings).or (s.given? p) := by
  have hone : lastGiven? p [s] = s.given? p := by
    rw [lastGiven?, List.reverse_singleton, List.findSome?_singleton]
  rw [← List.singleton_append, lastGiven?_append, hone]

/-- A call that gives to a part decides on it if none after it gives to the part. -/
theorem lastGiven?_of_last {x : p.Content} (hs : s.given? p = some x)
    (hsince : ∀ s' ∈ since, s'.given? p = none) :
    lastGiven? p (before ++ s :: since) = some x := by
  have hnone : lastGiven? p since = none := by
    rw [lastGiven?, List.findSome?_eq_none_iff]
    intro s' hs'
    exact hsince s' (List.mem_reverse.1 hs')
  rw [lastGiven?_append, lastGiven?_cons, hnone, hs]
  rfl

theorem lastGiven?_swap (h : a.Apart b) (before since : List Setting) (p : Part) :
    lastGiven? p (before ++ a :: b :: since) = lastGiven? p (before ++ b :: a :: since) := by
  have hpair (x : Option p.Content) :
      (b.given? p).or ((a.given? p).or x) = (a.given? p).or ((b.given? p).or x) := by
    rcases h p with ha | hb
    · rw [ha, Option.none_or, Option.none_or]
    · rw [hb, Option.none_or, Option.none_or]
  simp only [lastGiven?_append, lastGiven?_cons, Option.or_assoc]
  rw [hpair]

end

/-- What a builder has for a part; a setting always has something. -/
def held? (b : Builder) : (p : Part) → Option p.Content
  | .defaultInterface => some b.config.defaultInterface
  | .defaultMethod => some b.config.defaultMethod
  | .defaultConverters => some b.config.defaultConverters
  | .converter t => b.converters.get? t
  | .global t => b.globals.get? t

/-- A call leaves to every part what it gives to it, or else what was there. -/
theorem held?_apply (b : Builder) (s : Setting) (p : Part) :
    (b.apply s).value.held? p = (s.given? p).or (b.held? p) := by
  cases p with
  | defaultInterface | defaultMethod | defaultConverters =>
    cases s with
    | _ => rfl
  | converter t =>
    cases s with
    | converter t' c =>
      have hget := Converters.History.get?_register b.converters t t' c
      refine hget.trans ?_
      rw [Setting.given?]
      split
      · rfl
      · rfl
    | _ => rfl
  | global t =>
    cases s with
    | global i =>
      refine (b.globals.get?_insertEntry i t).trans ?_
      rw [Setting.given?, Injected.cast?]
      split
      · rfl
      · rfl
    | _ => rfl

/-- A part keeps what it was given last, or else what a new builder has for it. -/
theorem held?_ofSettings (settings : List Setting) (p : Part) :
    (ofSettings settings).held? p = (lastGiven? p settings).or (held? {} p) := by
  -- Each part goes its own way through the calls, so one induction does for all of them.
  have hrun (b : Builder) : (settings.foldl (fun b s => (b.apply s).value) b).held? p =
      (lastGiven? p settings).or (b.held? p) := by
    induction settings generalizing b with
    | nil => rfl
    | cons s ss ih => rw [List.foldl_cons, ih, held?_apply, lastGiven?_cons, Option.or_assoc]
  rw [ofSettings, value_foldlM, hrun]

end Builder

theorem Converters.get?_builtIn (enabled : Bool) (t : Ty) :
    (builtIn enabled).get? t = if enabled then builtIn? t else none := by
  cases enabled with
  | false => rfl
  | true => exact get?_install t

/-- Registries that are the same but for the order in which their values for all bindings and their
converters are kept. -/
structure Registry.Alike (r r' : Registry σ) : Prop where
  interfaces : r'.interfaces = r.interfaces
  revision : r'.revision = r.revision
  config : r'.config = r.config
  globals : r'.globals.entries.Perm r.globals.entries
  converters : r'.converters.entries.Perm r.converters.entries

theorem sortedNames_ascending (ts : List Ty) : (sortedNames ts).Pairwise (· ≤ ·) := by
  have htrans (a b c : String) : decide (a ≤ b) = true → decide (b ≤ c) = true →
      decide (a ≤ c) = true := by
    simpa using String.le_trans
  have htotal (a b : String) : (decide (a ≤ b) || decide (b ≤ a)) = true := by
    simpa using String.le_total a b
  exact (List.pairwise_mergeSort htrans htotal _).imp of_decide_eq_true

/-- Types are shown the same in whatever order they are kept. -/
theorem typeSetText_of_perm {ts ts' : List Ty} (h : ts.Perm ts') :
    typeSetText ts = typeSetText ts' := by
  have hperm : (sortedNames ts).Perm (sortedNames ts') :=
    (List.mergeSort_perm _ _).trans ((h.map _).trans (List.mergeSort_perm _ _).symm)
  have hnames : sortedNames ts = sortedNames ts' :=
    hperm.eq_of_pairwise (fun _ _ _ _ => String.le_antisymm) (sortedNames_ascending ts)
      (sortedNames_ascending ts')
  rw [typeSetText, typeSetText, hnames]

namespace Registry.Alike

variable {r r' : Registry σ}

/-- Values are converted alike. -/
theorem convert (h : r.Alike r') (t : Ty) (v : Value) :
    r'.converters.convert t v = r.converters.convert t v :=
  Converters.convert_congr (TypeMap.findKeyed?_of_perm h.converters t) v

/-- They look alike in diagnostics. -/
theorem debugText (h : r.Alike r') : r'.debugText = r.debugText := by
  have hsize : r'.size = r.size := by rw [size, size, h.interfaces]
  have hglobals : typeSetText r'.globals.types = typeSetText r.globals.types :=
    typeSetText_of_perm (h.globals.map Sigma.fst)
  have hconverters : typeSetText r'.converters.types = typeSetText r.converters.types :=
    typeSetText_of_perm (h.converters.map Sigma.fst)
  unfold Registry.debugText
  rw [hsize, h.revision, h.config, hglobals, hconverters]

end Registry.Alike

namespace Builder

theorem get?_converters_build (b : Builder) (t : Ty) :
    (b.build : Logged (Registry σ)).value.converters.get? t = (b.converters.get? t).or
      (if b.config.defaultConverters then Converters.builtIn? t else none) := by
  rw [build_value, TypeMap.get?_extend, Converters.get?_builtIn]

/-- Builders that have the same for every part build the same registry. -/
theorem alike_build {b b' : Builder} (h : ∀ p, b'.held? p = b.held? p) :
    (b.build : Logged (Registry σ)).value.Alike b'.build.value := by
  have hinterface : b'.config.defaultInterface = b.config.defaultInterface :=
    Option.some.inj (h .defaultInterface)
  have hmethod : b'.config.defaultMethod = b.config.defaultMethod :=
    Option.some.inj (h .defaultMethod)
  have hflag : b'.config.defaultConverters = b.config.defaultConverters :=
    Option.some.inj (h .defaultConverters)
  have hconfig : b'.config = b.config := by
    cases hb : b.config
    cases hb' : b'.config
    simp_all
  constructor
  · rw [build_value, build_value]
  · rw [build_value, build_value]
  · rw [build_value, build_value, hconfig]
  · rw [globals_build, globals_build]
    exact TypeMap.perm_of_get?_eq fun t => h (.global t)
  · refine TypeMap.perm_of_get?_eq fun t => ?_
    have hcustom : b'.converters.get? t = b.converters.get? t := h (.converter t)
    rw [get?_converters_build, get?_converters_build, hcustom, hflag]

section

variable (settings : List Setting)

theorem config_registryOf :
    (registryOf settings : Logged (Registry σ)).value.config = (ofSettings settings).config := by
  rw [registryOf_value, build_value]

theorem get?_globals_registryOf (t : Ty) :
    (registryOf settings : Logged (Registry σ)).value.globals.get? t =
      lastGiven? (.global t) settings := by
  rw [registryOf_value, globals_build]
  exact (held?_ofSettings settings (.global t)).trans Option.or_none

theorem get?_converters_registryOf (t : Ty) :
    (registryOf settings : Logged (Registry σ)).value.converters.get? t =
      (lastGiven? (.converter t) settings).or
        (if (ofSettings settings).config.defaultConverters then Converters.builtIn? t
          else none) := by
  have hgiven : (ofSettings settings).converters.get? t = lastGiven? (.converter t) settings :=
    (held?_ofSettings settings (.converter t)).trans Option.or_none
  rw [registryOf_value, get?_converters_build, hgiven]

/-- Sequences of calls that leave the same to every part build the same registry. -/
theorem alike_registryOf {settings settings' : List Setting}
    (h : ∀ p, lastGiven? p settings' = lastGiven? p settings) :
    (registryOf settings : Logged (Registry σ)).value.Alike (registryOf settings').value := by
  rw [registryOf_value, registryOf_value]
  refine alike_build fun p => ?_
  rw [held?_ofSettings, held?_ofSettings, h]

end

/-- A registry has the default interface, the default method and the flag that were given last, by
calls of their own or in a configuration; of each type it has the value for all bindings and the
converter that were given last. A type that was given no converter has the built-in one if the flag
is set at the end and the type is that of texts or of instants, and none otherwise. The order in
which given converters are copied over the built-in ones does not matter. So calls that leave the
same to every part build the same registry; calls that give to different parts may change places;
and the converter that a type was given last is asked first, wherever the built-in ones are switched
on or off. -/
theorem registryOf_keeps_last (settings : List Setting) :
    let r := (registryOf settings : Logged (Registry σ)).value
    (r.config.defaultInterface = (lastGiven? .defaultInterface settings).getD "main" ∧
      r.config.defaultMethod = (lastGiven? .defaultMethod settings).getD "f" ∧
      r.config.defaultConverters = (lastGiven? .defaultConverters settings).getD true) ∧
    (∀ t, r.globals.get? t = lastGiven? (.global t) settings) ∧
    (∀ t, r.converters.get? t = (lastGiven? (.converter t) settings).or
      (if r.config.defaultConverters then Converters.builtIn? t else none)) ∧
    (∀ es, es.Perm (ofSettings settings).converters.entries → ∀ t,
      ((Converters.builtIn r.config.defaultConverters).insertMany es).get? t =
        r.converters.get? t) ∧
    (∀ settings', (∀ p, lastGiven? p settings' = lastGiven? p settings) →
      let r' := (registryOf settings' : Logged (Registry σ)).value
      r.Alike r' ∧ (∀ t v, r'.converters.convert t v = r.converters.convert t v) ∧
        r'.debugText = r.debugText) ∧
    (∀ a b before since, a.Apart b → settings = before ++ a :: b :: since →
      r.Alike (registryOf (before ++ b :: a :: since)).value) ∧
    ∀ t c before since, settings = before ++ .converter t c :: since →
      (∀ c', .converter t c' ∉ since) →
        r.converters.get? t = some c ∧
        ∀ v a, c v = .ok ⟨t, a⟩ → r.converters.convert t v = pure (.ok a) := by
  intro r
  have hconfig : r.config = (ofSettings settings).config := config_registryOf settings
  refine ⟨?_, get?_globals_registryOf settings, ?_, ?_, ?_, ?_, ?_⟩
  · have hheld := held?_ofSettings settings
    rw [hconfig]
    exact ⟨Option.some.inj ((hheld .defaultInterface).trans Option.or_some),
      Option.some.inj ((hheld .defaultMethod).trans Option.or_some),
      Option.some.inj ((hheld .defaultConverters).trans Option.or_some)⟩
  · intro t
    rw [hconfig]
    exact get?_converters_registryOf settings t
  · intro es hes t
    rw [TypeMap.get?_insertMany_of_perm _ hes, Converters.get?_builtIn, hconfig]
    exact (get?_converters_build (ofSettings settings) t).symm
  · intro settings' h r'
    have halike : r.Alike r' := alike_registryOf h
    exact ⟨halike, halike.convert, halike.debugText⟩
  · rintro a b before since hab rfl
    exact alike_registryOf fun p => (lastGiven?_swap hab before since p).symm
  · rintro t c before since rfl hsince
    have hlast : lastGiven? (.converter t) (before ++ .converter t c :: since) = some c := by
      refine lastGiven?_of_last (if_pos rfl) fun s hs => ?_
      cases s with
      | converter t' c' =>
        refine if_neg fun ht => ?_
        subst ht
        exact hsince c' hs
      | _ => rfl
    have hget : r.converters.get? t = some c := by
      refine (get?_converters_registryOf _ t).trans ?_
      rw [hlast]
      rfl
    exact ⟨hget, fun v a hv => Converters.convert_of_made hget hv⟩

/-- Calls for a shop: a whole configuration comes after the interface and the flag, and before the
method. -/
def shopSettings : List Setting :=
  [.defaultInterface "Shop", .converter .string (.typed .string fun _ => .ok "fixed"),
    .defaultConverters false, .global ⟨.token, "old"⟩, .config { defaultMethod := "open" },
    .global ⟨.token, "new"⟩, .defaultMethod "sell"]

/-- The configuration undoes the interface and switches the built-in converters on. Texts are still
converted as given, and the configuration may as well come before the first token. -/
theorem shop_keeps_last :
    let r := (registryOf shopSettings : Logged (Registry Unit)).value
    r.config.defaultInterface = "main" ∧ r.config.defaultMethod = "sell" ∧
    r.globals.get? .token = some "new" ∧
    r.converters.get? .time = some Converters.timeConverter ∧ r.converters.get? .i64 = none ∧
    r.converters.convert .string (.integer 5) = pure (.ok "fixed") ∧
    r.Alike (registryOf (shopSettings.take 3 ++ .config { defaultMethod := "open" } ::
      .global ⟨.token, "old"⟩ :: shopSettings.drop 5)).value := by
  intro r
  obtain ⟨⟨hinterface, hmethod, -⟩, hglobals, hconverters, -, -, hswap, hgiven⟩ :=
    @registryOf_keeps_last Unit shopSettings
  have hapart : Setting.Apart (.global ⟨.token, "old"⟩) (.config { defaultMethod := "open" }) := by
    intro p
    cases p with
    | global t => exact .inr rfl
    | _ => exact .inl rfl
  have hfixed := (hgiven .string _ (shopSettings.take 1) (shopSettings.drop 2) rfl (by
    intro c hc
    simp [shopSettings] at hc)).2
  exact ⟨hinterface, hmethod, hglobals .token, hconverters .time, hconverters .i64,
    hfixed (.integer 5) "fixed" rfl, hswap _ _ _ _ hapart rfl⟩

end Builder

end BindingRegistry
