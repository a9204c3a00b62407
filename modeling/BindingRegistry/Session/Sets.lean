import BindingRegistry.Session.Step

/-!
Work on named injection sets: putting values in, taking them out, and joining
sets, where the last value of a type counts.
-/
namespace BindingRegistry.Session

open Catalogue

inductive SetStep where
  | insert (i : Injected)
  | insertShown (i : Injected)
  | get (t : Ty)
  | remove (t : Ty)
  | contains (t : Ty)
  | extend (sets : List String)
  | merge (sets : List String)
  | collect (items : List Injected)
  | extendItems (items : List Injected)
  | literal
  | debug
  | look

def shownIn (is : Injections) (t : Ty) : Option Value := (is.get? t).map t.shown

def literalSet : Injections :=
  .ofList [⟨.user, "m"⟩, ⟨.int .u8, .wrap .u8 2⟩, ⟨.bool, true⟩]

/-- Answers one step on the set `is`, among others found by `find`. -/
def SetStep.perform (find : String → Injections) (is : Injections) :
    SetStep → Injections × Reply
  | insert i => (is.insertEntry i, .shown (shownIn is i.1))
  | insertShown i => (is.insertEntry i, .replaced i (shownIn is i.1))
  | get t => (is, .shown (shownIn is t))
  | remove t => (is.erase t, .shown (shownIn is t))
  | contains t => (is, .flag (is.contains t))
  | extend sets => ((sets.map find).foldl TypeMap.extend is, .nothing)
  | merge sets => (.merge (sets.map find), .nothing)
  | collect items => (.ofList items, .nothing)
  | extendItems items => (is.insertMany items, .nothing)
  | literal => (literalSet, .number 0)
  | debug => (is, .text (typeSetText is.types))
  | look => (is, .nothing)

structure SetAnswer where
  reply : Reply
  set : Injections

/-- Answers steps, each on the set of the given name; sets start empty. -/
def runSets (sets : Dict Injections) : List (String × SetStep) → List SetAnswer
  | [] => []
  | (name, step) :: steps =>
    let find (n : String) : Injections := (sets.get? n).getD .empty
    let (is, reply) := step.perform find (find name)
    ⟨reply, is⟩ :: runSets (sets.insert name is) steps

end BindingRegistry.Session
