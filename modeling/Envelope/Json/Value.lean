import Envelope.Json.Number
import Envelope.Json.Text

/-!
# Writing JSON

The values that the formats of the library are made of, written on one line or
with one member a line.
-/

namespace Envelope.Json

/-- A value to be written. Members keep their order. -/
inductive Value
  | number (n : Nat)
  | text (s : String)
  | array (items : List Value)
  | object (members : List (String × Value))

/-- Where blanks go. -/
structure Style where
  /-- What starts a new line at a depth. -/
  line : (depth : Nat) → Bytes
  /-- What follows a colon. -/
  gap : Bytes

/-- No blanks at all. -/
def Style.compact : Style := ⟨fun _ => [], []⟩

/-- One item or member a line, two spaces for every level. -/
def Style.indented : Style := ⟨fun depth => 10 :: List.replicate (2 * depth) 32, [32]⟩

namespace Value

mutual

/-- The text of a value that stands at a depth. -/
def writeAt (style : Style) (depth : Nat) : Value → Bytes
  | .number n => Decimal.ofNat n
  | .text s => Text.quote s
  | .array [] => [91, 93]
  | .array (item :: items) =>
    91 :: style.line (depth + 1) ++ writeAt style (depth + 1) item
      ++ writeItems style (depth + 1) items ++ style.line depth ++ [93]
  | .object [] => [123, 125]
  | .object (member :: members) =>
    123 :: style.line (depth + 1) ++ writeMember style (depth + 1) member
      ++ writeMembers style (depth + 1) members ++ style.line depth ++ [125]

def writeItems (style : Style) (depth : Nat) : List Value → Bytes
  | [] => []
  | item :: items =>
    44 :: style.line depth ++ writeAt style depth item ++ writeItems style depth items

def writeMember (style : Style) (depth : Nat) : String × Value → Bytes
  | (name, value) => Text.quote name ++ 58 :: style.gap ++ writeAt style depth value

def writeMembers (style : Style) (depth : Nat) : List (String × Value) → Bytes
  | [] => []
  | member :: members =>
    44 :: style.line depth ++ writeMember style depth member ++ writeMembers style depth members

end

def write (style : Style) (value : Value) : Bytes :=
  value.writeAt style 0

end Value

end Envelope.Json
