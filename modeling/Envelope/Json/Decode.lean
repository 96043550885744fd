import Envelope.Json.Reading

/-!
# Typed values out of readings

A decoder looks at a reading from left to right and gives a value or the first
fault in the order of the text.
-/

namespace Envelope.Json

/-- Why a text does not denote a value of a type. -/
inductive Fault
  | malformed
  /-- A value of another kind stands there. -/
  | kind (expected : String)
  /-- A number outside the range stands there. -/
  | range (expected : String)
  /-- A field without a default is absent. -/
  | missing (field : String)
  | duplicate (field : String)
  | unknown (name : String) (alternatives : List String)
  /-- An array is too short for a record. -/
  | short (length : Nat) (title : String) (size : Nat)
  /-- A text was refused by the type it stands for. -/
  | refused (reason : String)
deriving DecidableEq, Repr

def quoteName (name : String) : String :=
  "`" ++ name ++ "`"

/-- The alternatives as they are listed: two with "or" between them, more after
"one of". -/
def listNames : List String → String
  | [a] => quoteName a
  | [a, b] => quoteName a ++ " or " ++ quoteName b
  | names => "one of " ++ String.intercalate ", " (names.map quoteName)

def Fault.message : Fault → String
  | .malformed => "<json syntax>"
  | .kind expected => "invalid type: expected " ++ expected
  | .range expected => "invalid value: expected " ++ expected
  | .missing field => "missing field " ++ quoteName field
  | .duplicate field => "duplicate field " ++ quoteName field
  | .unknown name alternatives =>
    "unknown variant " ++ quoteName name ++ ", expected " ++ listNames alternatives
  | .short length title size =>
    "invalid length " ++ toString length ++ ", expected struct " ++ title ++ " with "
      ++ toString size ++ " elements"
  | .refused reason => reason

/-- Reads a value of a type. -/
abbrev Decoder (α : Type) := Reading → Except Fault α

namespace Decoder

/-- The fault of a value of another kind. A text or number is looked at before
its kind is, and may turn out to be none. -/
def mismatch (expected : String) : Reading → Fault
  | .broken => .malformed
  | .scalar (.text none) => .malformed
  | .scalar (.number .overflowing) => .malformed
  | _ => .kind expected

def text : Decoder String
  | .scalar (.text (some s)) => .ok s
  | r => .error (mismatch "a string" r)

def unsigned (limit : Nat) (expected : String) : Decoder Nat
  | .scalar (.number (.unsigned n)) => if n < limit then .ok n else .error (.range expected)
  | .scalar (.number (.negative _)) => .error (.range expected)
  | r => .error (mismatch expected r)

/-- Reads the items of an array one after the other. -/
def items {α : Type} (item : Decoder α) (closed : Bool) : List Reading → Except Fault (List α)
  | [] => if closed then .ok [] else .error .malformed
  | r :: rest => do
    let value ← item r
    let values ← items item closed rest
    return value :: values

def list {α : Type} (item : Decoder α) : Decoder (List α)
  | .array rs closed => items item closed rs
  | r => .error (mismatch "a sequence" r)

def nullable {α : Type} (decode : Decoder α) : Decoder (Option α)
  | .scalar .null => .ok none
  | r => (decode r).map some

def name : Reading → Except Fault String
  | .scalar (.text (some s)) => .ok s
  | _ => .error .malformed

/-- The entries of an object, name and value of each in turn. -/
def entries {κ α : Type} (key : String → Except Fault κ) (value : Decoder α) (closed : Bool) :
    List (Reading × Reading) → Except Fault (List (κ × α))
  | [] => if closed then .ok [] else .error .malformed
  | (n, r) :: rest => do
    let k ← key (← name n)
    let v ← value r
    let more ← entries key value closed rest
    return (k, v) :: more

def map {κ α : Type} (key : String → Except Fault κ) (value : Decoder α) :
    Decoder (List (κ × α))
  | .object members closed => entries key value closed members
  | r => .error (mismatch "a map" r)

/-- The alternative of a name. -/
def pick {α : Type} (alternatives : List (String × α)) (name : String) : Except Fault α :=
  match alternatives.lookup name with
  | some value => .ok value
  | none => .error (.unknown name (alternatives.map (·.1)))

/-- Reads one of a few alternatives: its name, or an object with the name and
null. -/
def choice {α : Type} (alternatives : List (String × α)) : Decoder α
  | .scalar (.text (some name)) => pick alternatives name
  | .object ((n, payload) :: more) closed => do
    let value ← pick alternatives (← name n)
    match payload with
    | .scalar .null => if more.isEmpty && closed then .ok value else .error .malformed
    | payload => .error (mismatch "unit" payload)
  | _ => .error .malformed

end Decoder

/-- The value that a JSON text denotes; what follows the value is looked at
last. -/
def decode {α : Type} (decoder : Decoder α) (text : Bytes) : Except Fault α := do
  let document := Document.read text
  let value ← decoder document.value
  if document.trailing then throw .malformed
  return value

end Envelope.Json
