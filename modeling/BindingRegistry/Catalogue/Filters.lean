import BindingRegistry.Catalogue.Functions
import BindingRegistry.Filters.Stock

/-!
The filters of a host: fixed verdicts, filters that note what they see, tests
of the binding and of the injections, and predicates over injected values.
-/
namespace BindingRegistry.Catalogue

inductive FilterChoice where
  | verdict (passes : Bool)
  | record (id : String) (passes : Bool)
  | count (id : String)
  | order (label : String) (passes : Bool)
  | log (label : Option String)
  | methodNot (method : String)
  | maxInjected (most : Nat)
  | insert (i : Injected)
  | has (t : Ty)
  | remove (t : Ty)
  | auto0 (passes : Bool)
  | autoToken
  | autoSession
  | autoName (forbidden : String)
  | auto2
  | auto3
  | auto4
  | auto5
  | auto6

namespace FilterChoice

/-- What has to be in the world for the filter to note things in. -/
def prepare : FilterChoice → World → World
  | record id passes, w => w.withRecorder id passes
  | count id, w => w.withCounter id
  | _, w => w

def testing (p : Outline → Injections → Bool) : Filter World := fun o injections =>
  return (p o injections, injections)

def changing (f : Injections → Injections) : Filter World := fun _ injections =>
  return (true, f injections)

/-- The filter, with the verdict of a recorder that is there already. -/
def filter (c : FilterChoice) (w : World) : Filter World :=
  match c with
  | verdict passes => testing fun _ _ => passes
  | record id passes =>
    .recording (fun n w => w.record id n.text)
      (((w.recorders.get? id).map Recorder.verdict).getD passes)
  | count id => .counting fun w => w.count id
  | order label passes => fun _ injections => do
    Action.change fun w => { w with order := w.order ++ [label] }
    return (passes, injections)
  | log label => .logging label
  | methodNot method => testing fun o _ => o.name.method ≠ method
  | maxInjected most => testing fun o _ => o.marks.count true ≤ most
  | insert i => changing fun injections => injections.insertEntry i
  | has t => testing fun _ injections => injections.contains t
  | remove t => changing fun injections => injections.erase t
  | auto0 passes => .autoInject [] fun _ injections => return (passes, injections)
  | autoToken => .autoInject [.token] fun (t, _) injections =>
    return (t ≠ "bad", injections.insert .user t)
  | autoSession => .autoInject [.host .session] fun (s, _) injections =>
    return (true, injections.insert .sharedContext s)
  | autoName forbidden => .autoInject [.name] fun (n, _) injections =>
    return (n.text ≠ forbidden, injections)
  | auto2 => .autoInject [.token, .user] fun (t, u, _) injections =>
    return (t = u, injections)
  | auto3 => .autoInject [.sharedContext, .user, .i64] fun (c, u, n, _) injections =>
    return (c = u, injections.insert .i64 (word (n.val + 1)))
  | auto4 => .autoInject [.i64, .int .u8, .bool, .string] fun (a, b, c, d, _) injections =>
    return (c && a.val = b.val && d ≠ "", injections)
  | auto5 => .autoInject [.i64, .int .u8, .bool, .string, .user]
    fun (a, b, c, d, u, _) injections => do
      let s := String.join [wordText a, Decimal.intText b.val, boolText c, d, u]
      return (true, injections.insert .string s)
  | auto6 => .autoInject [.i64, .int .u8, .bool, .string, .user, .token]
    fun (a, b, c, d, u, t, _) injections => do
      let s := String.join [wordText a, Decimal.intText b.val, boolText c, d, u, t]
      return (c, injections.insert .string s)

end FilterChoice

end BindingRegistry.Catalogue
