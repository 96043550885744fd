import Envelope.Json.Number
import Envelope.Json.Text

/-!
# Tokens

A byte string as the tokens at its front, up to the first place where no token
starts.
-/

namespace Envelope.Json

/-- A value without parts. -/
inductive Scalar
  | null
  | bool (value : Bool)
  | number (numeral : Numeral)
  /-- A quoted text; `none` if it is well-formed but not Unicode. -/
  | text (text : Option String)
deriving DecidableEq, Repr

inductive Token
  | openArray
  | closeArray
  | openObject
  | closeObject
  | comma
  | colon
  | scalar (scalar : Scalar)
  /-- No token starts here. -/
  | malformed
deriving DecidableEq, Repr

namespace Token

def isBlank (byte : UInt8) : Bool :=
  byte == 32 || byte == 10 || byte == 13 || byte == 9

/-- The token of a word, if the rest of the word follows its first letter. -/
def word (scalar : Scalar) (letters : Bytes) (rest : Bytes) : Token × Bytes :=
  if letters.isPrefixOf rest then (.scalar scalar, rest.drop letters.length) else (.malformed, rest)

/-- The token that starts with the given byte, and what follows it. -/
def read (byte : UInt8) (rest : Bytes) : Token × Bytes :=
  if byte = 91 then (.openArray, rest)
  else if byte = 93 then (.closeArray, rest)
  else if byte = 123 then (.openObject, rest)
  else if byte = 125 then (.closeObject, rest)
  else if byte = 44 then (.comma, rest)
  else if byte = 58 then (.colon, rest)
  else if byte = 110 then word .null [117, 108, 108] rest
  else if byte = 116 then word (.bool true) [114, 117, 101] rest
  else if byte = 102 then word (.bool false) [97, 108, 115, 101] rest
  else if byte = Text.mark then
    match Text.pieces [] rest with
    | some (ps, rest) => (.scalar (.text (Text.ofPieces? ps)), rest)
    | none => (.malformed, rest)
  else
    match Decimal.read? (byte :: rest) with
    | some (decimal, rest) => (.scalar (.number decimal.numeral), rest)
    | none => (.malformed, rest)

/-- The tokens of a byte string; the last one is `malformed` if the string ends
in no token. At most `steps` bytes and tokens are passed; `before` holds the
tokens already read, latest first. -/
def scanFrom : (steps : Nat) → (before : List Token) → Bytes → List Token
  | _, before, [] => before.reverse
  | 0, before, _ :: _ => before.reverse
  | steps + 1, before, byte :: rest =>
    if isBlank byte then scanFrom steps before rest
    else
      match read byte rest with
      | (.malformed, _) => (Token.malformed :: before).reverse
      | (token, rest) => scanFrom steps (token :: before) rest

/-- The tokens of a byte string. Every token takes at least one byte, so the
length of the string bounds the number of steps. -/
def scan (bs : Bytes) : List Token :=
  scanFrom bs.length [] bs

end Token

end Envelope.Json
