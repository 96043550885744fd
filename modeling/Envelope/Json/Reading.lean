import Envelope.Json.Token

/-!
# Readings

A `Reading` is what a reader finds who goes through a JSON text from left to
right: the values as far as the text is well-formed, and the place where it
stops being so. Whoever looks for something in a reading meets its parts in
the order of the text, so that the first fault in the text is found first.
-/

namespace Envelope.Json

/-- What stands at a place of a text where a value is expected. -/
inductive Reading
  /-- Nothing well-formed starts here. -/
  | broken
  | scalar (scalar : Scalar)
  /-- The values that follow an opening bracket. If the array is not closed,
  the text breaks inside it, after the last value or in it. -/
  | array (items : List Reading) (closed : Bool)
  /-- The names and values that follow an opening brace, likewise. Names are
  texts; only the last one of an object that is not closed may be broken. -/
  | object (members : List (Reading × Reading)) (closed : Bool)

namespace Reading

/-- Whether the text goes on well-formed behind the value. -/
def complete : Reading → Bool
  | .broken => false
  | .scalar _ => true
  | .array _ closed => closed
  | .object _ closed => closed

end Reading

/-- An array or object that has begun, with its parts so far, latest first. -/
inductive Begun
  | items (before : List Reading)
  /-- An object in which a name or a separator comes next. -/
  | members (before : List (Reading × Reading))
  /-- An object in which the value for a name comes next. -/
  | member (before : List (Reading × Reading)) (name : Reading)

/-- What comes next. -/
inductive Expected
  | value
  | valueOrEnd
  | name
  | nameOrEnd
  | colon
  | separator
deriving DecidableEq

/-- A place in the text. -/
inductive Cursor
  /-- Inside the given arrays and objects, innermost first. -/
  | inside (expected : Expected) (outer : List Begun)
  /-- Behind the outermost value. -/
  | behind (value : Reading)
  /-- Behind something that follows the outermost value. -/
  | beyond (value : Reading)
  /-- At the place where the text breaks. -/
  | stuck (value : Reading)

namespace Cursor

def start : Cursor := .inside .value []

/-- The reading of a text that breaks behind `last`, inside `outer`. -/
def abandon (last : Reading) : List Begun → Reading
  | [] => last
  | .items before :: outer => abandon (.array (last :: before).reverse false) outer
  | .members before :: outer => abandon (.object ((last, .broken) :: before).reverse false) outer
  | .member before name :: outer =>
    abandon (.object ((name, last) :: before).reverse false) outer

/-- The place behind a complete value. -/
def supply (value : Reading) : List Begun → Cursor
  | [] => .behind value
  | .items before :: outer => .inside .separator (.items (value :: before) :: outer)
  | .members before :: outer => .inside .colon (.member before value :: outer)
  | .member before name :: outer => .inside .separator (.members ((name, value) :: before) :: outer)

def closeArray : List Begun → Cursor
  | .items before :: outer => supply (.array before.reverse true) outer
  | outer => .stuck (abandon .broken outer)

def closeObject : List Begun → Cursor
  | .members before :: outer => supply (.object before.reverse true) outer
  | outer => .stuck (abandon .broken outer)

/-- The place behind the token with which a value starts. -/
def startValue (outer : List Begun) : Token → Cursor
  | .scalar scalar => supply (.scalar scalar) outer
  | .openArray => .inside .valueOrEnd (.items [] :: outer)
  | .openObject => .inside .nameOrEnd (.members [] :: outer)
  | _ => .stuck (abandon .broken outer)

/-- The place behind a name. Only a text is one. -/
def startName (outer : List Begun) : Token → Cursor
  | .scalar (.text text) => supply (.scalar (.text text)) outer
  | _ => .stuck (abandon .broken outer)

/-- The place behind a separator. -/
def separate (outer : List Begun) : Token → Cursor
  | .comma =>
    match outer with
    | .items _ :: _ => .inside .value outer
    | .members _ :: _ => .inside .name outer
    | _ => .stuck (abandon .broken outer)
  | .closeArray => closeArray outer
  | .closeObject => closeObject outer
  | _ => .stuck (abandon .broken outer)

/-- The place behind one more token. -/
def step (cursor : Cursor) (token : Token) : Cursor :=
  match cursor with
  | .inside .value outer => startValue outer token
  | .inside .valueOrEnd outer =>
    if token = .closeArray then closeArray outer else startValue outer token
  | .inside .name outer => startName outer token
  | .inside .nameOrEnd outer =>
    if token = .closeObject then closeObject outer else startName outer token
  | .inside .colon outer =>
    if token = .colon then .inside .value outer else .stuck (abandon .broken outer)
  | .inside .separator outer => separate outer token
  | .behind value => .beyond value
  | .beyond value => .beyond value
  | .stuck value => .stuck value

end Cursor

/-- A whole text: what it starts with, and whether anything follows that. -/
structure Document where
  value : Reading
  trailing : Bool

namespace Document

def ofCursor : Cursor → Document
  | .inside _ outer => ⟨Cursor.abandon .broken outer, false⟩
  | .behind value => ⟨value, false⟩
  | .beyond value => ⟨value, true⟩
  | .stuck value => ⟨value, false⟩

def read (bs : Bytes) : Document :=
  ofCursor ((Token.scan bs).foldl Cursor.step .start)

end Document

end Envelope.Json
