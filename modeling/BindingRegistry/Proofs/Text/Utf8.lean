import BindingRegistry.Proofs.Text.Bytes

/-!
Reading bytes as texts. Those of a text are read as it, whether other bytes are
refused or not.
-/
namespace BindingRegistry.Text

open String (utf8EncodeChar)

section

variable {b : Nat}

end

end BindingRegistry.Text
