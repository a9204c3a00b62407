import BindingRegistry.Registry.Selection
import BindingRegistry.Remote.Local
import BindingRegistry.Session.Step

/-!
Sessions: a registry together with the world of its host, the objects made in
it and the registries that were set aside as backends. A session is driven by
steps. Each answers with a reply, reports events, and leaves a session in
which the next one runs.
-/
namespace BindingRegistry

structure Session where
  registry : Registry World := {}
  world : World := {}
  objects : Dict Catalogue.Object := .empty
  backends : Dict (Registry World) := .empty

namespace Session

open Catalogue

/-- A session with a fresh registry and nothing else. -/
def start : Session := { registry := (Registry.fresh (σ := World)).value }

abbrev Answered := Logged (Session × Reply)

def act (s : Session) (a : Action World α) : Logged (Session × α) := do
  let (value, world) ← a.run s.world
  return ({ s with world }, value)

/-- Changes the registry and then looks at it for a reply. -/
def onRegistry (s : Session) (change : Logged (Registry World)) (reply : Registry World → Reply) :
    Answered := do
  let r ← change
  return ({ s with registry := r }, reply r)

/-- The signature of a binding that has just been registered. -/
def signatureReply (n : QualifiedName) (r : Registry World) : Reply :=
  .text ((r.signature n).getD "")

/-- The transport of a route, with what it needs in the world. -/
def transport? (s : Session) : Route → Option (Session × Transport World)
  | .backend id => (s.backends.get? id).map fun r => (s, .toRegistry r)
  | .mock id canned => some ({ s with world := s.world.withMock id canned }, World.answer id)

def registerRemote (s : Session) (n : QualifiedName) (endpoint : String)
    (remote : QualifiedName) (signature : String) (transport : Transport World) : Answered := do
  match ← s.registry.registerRemote n endpoint remote signature transport with
  | .error e => return (s, .refused e)
  | .ok r => return ({ s with registry := r }, signatureReply n r)

/-- Registers a stand-in for the far binding of the same name and shows it. -/
def registerProxy (s : Session) (n : QualifiedName) (endpoint signature : String)
    (transport : Transport World) : Answered :=
  match Remote.Url.parse endpoint with
  | .error fault => pure (s, .refused (.invalidEndpoint endpoint fault.message))
  | .ok url =>
    let p : Proxy World := ⟨url, n.interface, n.method, signature, transport⟩
    s.onRegistry (s.registry.register n (.proxy p)) fun _ => .standIn p

/-- Does one thing to a group. Nothing more is done to a group that was removed. -/
def groupStep (s : Session) (g : GroupReport) (step : GroupStep) : Logged (Session × GroupReport) :=
  if g.removed.isSome then pure (s, g)
  else match step with
    | .inject i => pure ({ s with registry := s.registry.updateEach g.names (·.inject i) }, g)
    | .filter f =>
      let world := f.prepare s.world
      let registry := s.registry.updateEach g.names (·.addFilter (f.filter world))
      pure ({ s with registry, world }, g)
    | .clearFilters =>
      pure ({ s with registry := s.registry.updateEach g.names Binding.clearFilters }, g)
    | .countParams =>
      let count := sumBy (fun b => b.params.length) (s.registry.selected g.names)
      pure (s, { g with params := some count })
    | .remove => do
      let (registry, count) ← s.registry.removeEach g.names
      return ({ s with registry }, { g with removed := some count })

def groupSteps (s : Session) (names : List QualifiedName) (steps : List GroupStep) : Answered := do
  let (s, g) ← steps.foldlM (fun p step => groupStep p.1 p.2 step) (s, { names })
  return (s, .group g)

def Wanted.expose (r : Registry World) (interface : String) (members : List (Member World)) :
    Wanted → Except RegistrationError (Logged (Registry World × List QualifiedName))
  | all => .ok (r.expose interface (fun _ => true) members)
  | named name => .ok (r.expose interface (· = name) members)
  | matching pattern => r.exposePattern interface pattern members

/-- Exposes members of an object and goes on with the group of the new bindings. -/
def expose (s : Session) (object : Object) (interface : Option String) (announced : Announced)
    (wanted : Wanted) (steps : List GroupStep) : Answered :=
  let members := match announced with
    | .methods => object.methods
    | .getters => object.getters
  match wanted.expose s.registry (interface.getD object.interface) members with
  | .error e => pure (s, .refused e)
  | .ok exposed => do
    let (registry, names) ← exposed
    groupSteps { s with registry } names steps

def scopeNames (r : Registry World) : Scope → Except RegistrationError (List QualifiedName)
  | .all => .ok r.selectAll
  | .interface name => .ok (r.selectInterface name)
  | .matching pattern => r.selectPattern pattern

def invoke (s : Session) (n : QualifiedName) (args : List Value) (injections : List Injected)
    (path : Path) : Answered := do
  let call := TypeMap.ofList injections
  match path with
  | .registry =>
    let (s, o) ← s.act (s.registry.invoke n call args)
    return (s, .outcome o)
  | .binding =>
    match s.registry.lookup n with
    | none => return (s, .noBinding)
    | some b =>
      let (s, o) ← s.act (BindingRegistry.invoke b s.registry.converters call args)
      return (s, .outcome o)
  | .own rules =>
    match s.registry.lookup n with
    | none => return (s, .noBinding)
    | some b =>
      let converters ← registerAll .empty rules
      let (s, o) ← s.act (BindingRegistry.invoke b converters call args)
      return (s, .outcome o)

/-- A name that no interface has: it is longer than each of theirs. -/
def absentInterface (r : Registry World) : String := String.join ("." :: r.interfaceNames)

/-- The interfaces with their methods, and how many methods an interface has that is not there. -/
def namesReply (r : Registry World) : Reply :=
  .names (r.interfaceNames.map fun i => (i, r.methodNames i)) r.bindings.length
    (r.methodNames (absentInterface r)).length

def onBinding (s : Session) (n : QualifiedName) (reply : Reply)
    (change : Binding World → Binding World) : Answered :=
  if (s.registry.lookup n).isSome then
    pure ({ s with registry := s.registry.update n change }, reply)
  else pure (s, .nothing)

def perform (s : Session) : Step → Answered
  | .build settings => s.onRegistry (Builder.registryOf settings) fun _ => .nothing
  | .freeze id => do
    let fresh ← Registry.fresh
    return ({ s with registry := fresh, backends := s.backends.insert id s.registry }, .nothing)
  | .config => pure (s, .config s.registry.config)
  | .register n c => s.onRegistry (s.registry.register n c) (signatureReply n)
  | .registerCounted n op =>
    s.onRegistry (s.registry.register n (.function op)) fun r =>
      .counted ((r.signature n).getD "") op.returns.arity
  | .exposeFunction op =>
    let n := s.registry.defaultName
    s.onRegistry (s.registry.exposeFunction op) fun r => .exposed n ((r.signature n).getD "")
  | .registerRemote n endpoint remote signature route =>
    match s.transport? route with
    | none => pure (s, .unknown route.id)
    | some (s, transport) => s.registerRemote n endpoint remote signature transport
  | .registerProxy n endpoint signature route =>
    match s.transport? route with
    | none => pure (s, .unknown route.id)
    | some (s, transport) => s.registerProxy n endpoint signature transport
  | .calls id => pure (s, ((s.world.mocks.get? id).map (Reply.calls ∘ Mock.calls)).getD .nothing)
  | .createObject id type init =>
    match object? type init s.world with
    | none => pure (s, .unknown type)
    | some (object, world) =>
      pure ({ s with world, objects := s.objects.insert id object }, .nothing)
  | .poke id n =>
    match (s.objects.get? id).bind Object.cell with
    | none => pure (s, .unknown id)
    | some cell =>
      pure ({ s with world := s.world.setNumber cell n }, .number (s.world.number cell).val)
  | .expose id interface announced wanted steps =>
    match s.objects.get? id with
    | none => pure (s, .unknown id)
    | some object => s.expose object interface announced wanted steps
  | .lookup n => pure (s, ((s.registry.lookup n).map Reply.binding).getD .nothing)
  | .signature n => pure (s, ((s.registry.signature n).map Reply.text).getD .nothing)
  | .names => pure (s, namesReply s.registry)
  | .describe => pure (s, .descriptors s.registry.describe)
  | .debug => pure (s, .text s.registry.debugText)
  | .remove n => do
    let (registry, removed) ← s.registry.remove n
    return ({ s with registry }, (removed.map Reply.binding).getD .nothing)
  | .removeInterface interface => do
    let (registry, count) ← s.registry.removeInterface interface
    return ({ s with registry }, .number count)
  | .inject n i => s.onBinding n (.flag true) (·.inject i)
  | .addFilter n f =>
    let world := f.prepare s.world
    { s with world }.onBinding n (.flag true) (·.addFilter (f.filter world))
  | .clearFilters n => s.onBinding n (.number 0) Binding.clearFilters
  | .declareGlobal i =>
    let registry := s.registry.declareGlobal i
    pure ({ s with registry }, .globals registry.globals.size)
  | .globals => pure (s, .listing (Injections.listing s.registry.globals))
  | .select scope steps =>
    match scopeNames s.registry scope with
    | .error e => pure (s, .refused e)
    | .ok names => s.groupSteps names steps
  | .registerConverter rules => do
    let converters ← registerAll s.registry.converters rules
    return ({ s with registry := { s.registry with converters } }, .number converters.size)
  | .unregisterConverter t =>
    let registry := { s.registry with converters := s.registry.converters.erase t }
    pure ({ s with registry }, .flag (s.registry.converters.contains t))
  | .extendConverters rules => do
    let converters := s.registry.converters.extend (← registerAll .empty rules)
    return ({ s with registry := { s.registry with converters } }, .number converters.size)
  | .convert t v => do
    let outcome ← s.registry.converters.convert t v
    return (s, .converted (outcome.map t.shown))
  | .notes => pure (s, .notes s.world)
  | .resetNotes => pure ({ s with world := s.world.resetNotes }, .nothing)
  | .invoke n args injections path => s.invoke n args injections path

structure Answer where
  reply : Reply
  revision : Nat
  size : Nat
  lines : List String

/-- Whether a step works on bindings in no particular order. -/
def Step.isUnordered : Step → Bool
  | select .. => true
  | _ => false

def run (s : Session) : List Step → List Answer
  | [] => []
  | step :: steps =>
    let answered := s.perform step
    let (s, reply) := answered.value
    let lines := answered.events.map Event.line
    let lines := if step.isUnordered then lines.mergeSort (· ≤ ·) else lines
    ⟨reply, s.registry.revision, s.registry.size, lines⟩ :: s.run steps

end Session

end BindingRegistry
