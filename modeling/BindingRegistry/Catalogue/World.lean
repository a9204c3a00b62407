import BindingRegistry.Remote.Call

/-!
The state of a host: what its functions and objects store, what its filters
and transports note down. Cells of objects are numbered in the order of their
creation and are never given up, so a callable of an object that has been
replaced keeps its own cell.
-/
namespace BindingRegistry

structure Recorder where
  names : List String := []
  verdict : Bool

inductive Canned where
  | reply (v : Value)
  | failure (text : String)

structure Mock where
  canned : Canned
  calls : List RemoteCall := []

structure World where
  touched : Nat := 0
  numbers : List (Word .i64) := []
  ledgers : List (List (Word .i64)) := []
  recorders : Dict Recorder := .empty
  counters : Dict Nat := .empty
  order : List String := []
  mocks : Dict Mock := .empty

namespace World

def number (w : World) (cell : Nat) : Word .i64 := w.numbers[cell]?.getD default
def ledger (w : World) (cell : Nat) : List (Word .i64) := w.ledgers[cell]?.getD []

def setNumber (w : World) (cell : Nat) (n : Word .i64) : World :=
  { w with numbers := w.numbers.set cell n }

def setLedger (w : World) (cell : Nat) (amounts : List (Word .i64)) : World :=
  { w with ledgers := w.ledgers.set cell amounts }

/-- A recorder for `id`; one that is there already keeps its verdict. -/
def withRecorder (w : World) (id : String) (verdict : Bool) : World :=
  if w.recorders.contains id then w
  else { w with recorders := w.recorders.insert id { verdict } }

def withCounter (w : World) (id : String) : World :=
  if w.counters.contains id then w else { w with counters := w.counters.insert id 0 }

/-- A canned transport for `id`; one that is there already keeps its answer. -/
def withMock (w : World) (id : String) (canned : Canned) : World :=
  if w.mocks.contains id then w else { w with mocks := w.mocks.insert id { canned } }

def record (w : World) (id name : String) : World :=
  match w.recorders.get? id with
  | none => w
  | some r => { w with recorders := w.recorders.insert id { r with names := r.names ++ [name] } }

def count (w : World) (id : String) : World :=
  { w with counters := w.counters.insert id ((w.counters.get? id).getD 0 + 1) }

def resetNotes (w : World) : World :=
  { w with
    recorders := w.recorders.map fun _ r => { r with names := [] }
    counters := w.counters.map fun _ _ => 0
    order := [] }

/-- Answers a call as fixed in advance and keeps it. -/
def answer (id : String) : Transport World := fun call =>
  Action.onWorld fun w =>
    match w.mocks.get? id with
    | none => (.ok .null, w)
    | some m =>
      let outcome := match m.canned with
        | .reply v => .ok v
        | .failure text => .error (.failed { message := text })
      (outcome, { w with mocks := w.mocks.insert id { m with calls := m.calls ++ [call] } })

end World

end BindingRegistry
