/-! The closed set of shapes that a callable can have. -/
namespace BindingRegistry

inductive Kind where
  | function
  | method
  | getter
  | handler
  | proxy
  deriving DecidableEq, Repr

def Kind.word : Kind → String
  | .function => "function"
  | .method => "method"
  | .getter => "attribute"
  | .handler => "handler"
  | .proxy => "remote"

def Kind.title : Kind → String
  | .function => "Function"
  | .method => "Method"
  | .getter => "Attribute"
  | .handler => "Handler"
  | .proxy => "RemoteProxy"

end BindingRegistry
