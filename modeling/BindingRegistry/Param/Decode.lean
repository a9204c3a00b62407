import BindingRegistry.Error

/-!
Values and typed content.
Decoding is the last step of coercion: numbers are cast, lists and maps are
taken element by element, structured types go by their schema, and any other
pairing of kind and type is refused. Encoding writes content back as a value.
-/
namespace BindingRegistry.Ty

/-- A float as a word: its integer part, moved into the range of the width. -/
def wordOfFloat (w : Width) (x : Binary64) : Word w := .clamp w (x.clampTo w.least w.greatest)

def incompatible (t : Ty) (v : Value) : Except ConvertError α :=
  .error (.incompatible v.kind t)

def decodeBool (t : Ty) (v : Value) : Except ConvertError Bool :=
  match v with
  | .bool b => .ok b
  | v => incompatible t v

/-- Whole numbers wrap to the width; floats lose their fraction and stop at the bounds. -/
def decodeWord (w : Width) (v : Value) : Except ConvertError (Word w) :=
  match v with
  | .integer n => .ok (.wrap w n)
  | .float x => .ok (wordOfFloat w x)
  | v => incompatible (int w) v

/-- Any number as a binary value. -/
def decodeFloat (t : Ty) (v : Value) : Except ConvertError Binary64 :=
  match v with
  | .integer n => .ok (.ofInt n)
  | .float x => .ok x
  | v => incompatible t v

def decodeString (t : Ty) (v : Value) : Except ConvertError String :=
  match v with
  | .string s => .ok s
  | v => incompatible t v

/-- The elements of an array, in order; the first that is refused decides the error. -/
def decodeItems (t : Ty) (item : Value → Except ConvertError α) (v : Value) :
    Except ConvertError (List α) :=
  match v with
  | .array items => items.mapM item
  | v => incompatible t v

/-- The members of an object, in key order; the first that is refused decides the error. -/
def decodeMembers (t : Ty) (item : Value → Except ConvertError α) (v : Value) :
    Except ConvertError (Dict α) :=
  match v with
  | .object entries => do
    return .ofList (← entries.mapM (fun e => do return (e.1, ← item e.2)))
  | v => incompatible t v

def decodeHost : (h : HostTy) → Value → Except ConvertError h.Denote
  | .celsius, v => decodeFloat f64 v
  | .unsupported, v => decodeWord .i64 v
  | .picky, v => decodeWord .i64 v
  | .context, _ => .error (.notDecodable (host .context))
  | .session, _ => .error (.notDecodable (host .session))
  | .user, _ => .error (.notDecodable (host .user))
  | .token, _ => .error (.notDecodable (host .token))
  | .request, _ => .error (.notDecodable (host .request))

def decode : (t : Ty) → Value → Except ConvertError t.Denote
  | bool, v => decodeBool bool v
  | int w, v => decodeWord w v
  | f32, v => (Binary.convert .single) <$> decodeFloat f32 v
  | f64, v => decodeFloat f64 v
  | string, v => decodeString string v
  | value, v => .ok v
  | list t, v => decodeItems (list t) t.decode v
  | hashMap t, v => decodeMembers (hashMap t) t.decode v
  | treeMap t, v => decodeMembers (treeMap t) t.decode v
  | option t, v => match v with
    | .null => .ok none
    | v => some <$> t.decode v
  | shared t, _ => .error (.notDecodable (shared t))
  | time, v => (Reading.time v).mapError .structured
  | structured s, v => (s.read v).mapError .structured
  | name, _ => .error (.notDecodable name)
  | caller, _ => .error (.notDecodable caller)
  | host h, v => decodeHost h v

def encodeHost : (h : HostTy) → h.Denote → Value
  | .celsius, x => .ofBinary64 x
  | .unsupported, a => .integer a.val
  | .picky, a => .integer a.val
  | .context, s | .session, s | .user, s | .token, s | .request, s => .string s

/-- The value of typed content. Floats without a number and absent options are null. -/
def encode : (t : Ty) → t.Denote → Value
  | bool, b => .bool b
  | int _, a => .integer a.val
  | f32, x => .ofBinary64 (x.convert .double)
  | f64, x => .ofBinary64 x
  | string, s => .string s
  | value, v => v
  | list t, as => .array (as.map t.encode)
  | hashMap t, d => .ofDict (d.map (fun _ a => t.encode a))
  | treeMap t, d => .ofDict (d.map (fun _ a => t.encode a))
  | option t, a => .ofOption t.encode a
  | shared t, a => t.encode a
  | time, i => .string i.text
  | structured s, a => s.write a
  | name, n => .record [("interface", .string n.interface), ("method", .string n.method)]
  | caller, c => c.toValue
  | host h, a => encodeHost h a

/-- What a parameter takes from an injected value of its own type. -/
def accept : (t : Ty) → t.Denote → Option t.Denote
  | host .picky, a => if a.val % 2 = 0 then some a else none
  | _, a => some a

end BindingRegistry.Ty
