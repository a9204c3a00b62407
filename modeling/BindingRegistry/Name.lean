/-!
Two-level names of bindings. Both parts are arbitrary text, so the dotted form
is for readers only: different names may share it.
-/
namespace BindingRegistry

@[ext] structure QualifiedName where
  interface : String
  method : String
  deriving DecidableEq, Repr

def QualifiedName.text (n : QualifiedName) : String := n.interface ++ "." ++ n.method

end BindingRegistry
