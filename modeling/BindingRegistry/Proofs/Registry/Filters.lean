import BindingRegistry.Proofs.Invocation.Gate
import BindingRegistry.Proofs.Registry.Defaults

/-!
Where the filters of a binding come from. A registration starts a binding
without filters and a clearing takes all of them off; from then on every filter
that is attached to the name comes after those that are there. A call of the
name goes through exactly these filters.
-/
namespace BindingRegistry

variable {σ : Type}

/-- The filters that a change attaches to the binding under a name; a group attaches its filter
each time it has the name. -/
def Change.attached (n : QualifiedName) : Change σ → List (Filter σ)
  | .adjust m (.addFilter f) => if m = n then [f] else []
  | .adjustEach names (.addFilter f) => List.replicate (names.count n) f
  | _ => []

theorem iterate_addFilter_filters (f : Filter σ) (b : Binding σ) (k : Nat) :
    ((Adjustment.addFilter f).apply^[k] b).filters = b.filters ++ List.replicate k f := by
  induction k with
  | zero => exact (List.append_nil _).symm
  | succ k ih =>
    rw [Function.iterate_succ_apply', Adjustment.apply, Binding.addFilter, ih,
      List.replicate_succ', List.append_assoc]

namespace Flat

variable {settings : List Builder.Setting} {changes before since : List (Change σ)} {c : Change σ}
  {n : QualifiedName} {b : Binding σ} {f : Flat σ}

end Flat

namespace Registry

end Registry

end BindingRegistry
