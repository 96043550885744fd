import Envelope.Octets

/-!
# Base64

The standard alphabet with mandatory padding and zero unused bits. A text that
is refused is refused at a definite place: full groups of four symbols are
read first, then the last group, then its length, its padding and its unused
bits are looked at, in this order.
-/

namespace Envelope.Base64

/-- Why a text is not base64. Offsets count bytes of the UTF-8 form. -/
inductive Fault
  | symbol (byte : UInt8) (offset : Nat)
  | length (symbols : Nat)
  | lastSymbol (byte : UInt8) (offset : Nat)
  | padding
deriving DecidableEq, Repr

def Fault.message : Fault → String
  | .symbol byte offset =>
    "Invalid symbol " ++ toString byte.toNat ++ ", offset " ++ toString offset ++ "."
  | .length symbols => "Invalid input length: " ++ toString symbols
  | .lastSymbol byte offset =>
    "Invalid last symbol " ++ toString byte.toNat ++ ", offset " ++ toString offset ++ "."
  | .padding => "Invalid padding"

def pad : UInt8 := 61

def symbol (digit : Nat) : UInt8 :=
  if digit < 26 then UInt8.ofNat (65 + digit)
  else if digit < 52 then UInt8.ofNat (71 + digit)
  else if digit < 62 then UInt8.ofNat (digit - 4)
  else if digit = 62 then 43
  else 47

def digit? (byte : UInt8) : Option Nat :=
  if 65 ≤ byte ∧ byte ≤ 90 then some (byte.toNat - 65)
  else if 97 ≤ byte ∧ byte ≤ 122 then some (byte.toNat - 71)
  else if 48 ≤ byte ∧ byte ≤ 57 then some (byte.toNat + 4)
  else if byte = 43 then some 62
  else if byte = 47 then some 63
  else none

def symbols : Bytes → Bytes
  | [] => []
  | [a] => [symbol (a.toNat / 4), symbol (a.toNat % 4 * 16), pad, pad]
  | [a, b] =>
    [symbol (a.toNat / 4), symbol (a.toNat % 4 * 16 + b.toNat / 16), symbol (b.toNat % 16 * 4), pad]
  | a :: b :: c :: rest =>
    symbol (a.toNat / 4) :: symbol (a.toNat % 4 * 16 + b.toNat / 16) ::
      symbol (b.toNat % 16 * 4 + c.toNat / 64) :: symbol (c.toNat % 64) :: symbols rest

def encode (bs : Bytes) : String :=
  Bytes.ofCodes (symbols bs)

/-- The three bytes of four digits. -/
def join (p q r s : Nat) : Bytes :=
  [UInt8.ofNat (p * 4 + q / 16), UInt8.ofNat (q % 16 * 16 + r / 4), UInt8.ofNat (r % 4 * 64 + s)]

def readDigit (offset : Nat) (byte : UInt8) : Except Fault Nat :=
  match digit? byte with
  | some digit => .ok digit
  | none => .error (.symbol byte offset)

/-- The digits of the last group and the number of padding symbols behind
them. Padding may not come before the third place, and nothing may follow it;
`index` is the place inside the group that starts at `base`. -/
def readGroup (base index : Nat) : Bytes → Except Fault (List Nat × Nat)
  | [] => .ok ([], 0)
  | byte :: rest =>
    if byte = pad then
      if index < 2 then .error (.symbol pad (base + index))
      else if rest.all (· = pad) then .ok ([], rest.length + 1)
      else .error (.symbol pad (base + index))
    else do
      let digit ← readDigit (base + index) byte
      let (digits, pads) ← readGroup base (index + 1) rest
      return (digit :: digits, pads)

/-- The bytes of the last group, which starts at `base`. -/
def decodeLast (base : Nat) (group : Bytes) : Except Fault Bytes := do
  let (digits, pads) ← readGroup base 0 group
  if group ≠ [] ∧ digits.length < 2 then
    throw (.length (base + digits.length))
  if (digits.length + pads) % 4 ≠ 0 then
    throw .padding
  match digits with
  | [p, q] =>
    if q % 16 = 0 then return (join p q 0 0).take 1
    else throw (.lastSymbol (symbol q) (base + 1))
  | [p, q, r] =>
    if r % 4 = 0 then return (join p q r 0).take 2
    else throw (.lastSymbol (symbol r) (base + 2))
  | [p, q, r, s] => return join p q r s
  | _ => return []

/-- The bytes of symbols of which the first stands at `base`. Only a group that
another symbol follows is read as a full one. -/
def decodeFrom (base : Nat) : Bytes → Except Fault Bytes
  | a :: b :: c :: d :: e :: rest => do
    let p ← readDigit base a
    let q ← readDigit (base + 1) b
    let r ← readDigit (base + 2) c
    let s ← readDigit (base + 3) d
    let tail ← decodeFrom (base + 4) (e :: rest)
    return join p q r s ++ tail
  | group => decodeLast base group

/-- The bytes of symbols. A single symbol behind the full groups is looked at
first. -/
def decodeSymbols (text : Bytes) : Except Fault Bytes :=
  match text.getLast? with
  | some last =>
    if text.length % 4 = 1 ∧ last ≠ pad ∧ digit? last = none then
      .error (.symbol last (text.length - 1))
    else decodeFrom 0 text
  | none => .ok []

def decode (text : String) : Except Fault Bytes :=
  decodeSymbols (Bytes.ofString text)

/-- Why a text is not the base64 form of octets of a given length. -/
inductive SizedFault
  | malformed (fault : Fault)
  | size (expected actual : Nat)
deriving DecidableEq, Repr

def SizedFault.message : SizedFault → String
  | .malformed fault => fault.message
  | .size expected actual =>
    "expected " ++ toString expected ++ " bytes, got " ++ toString actual

def decodeOctets {size : Nat} (text : String) : Except SizedFault (Octets size) :=
  match decode text with
  | .error fault => .error (.malformed fault)
  | .ok bs =>
    match Octets.ofBytes? bs with
    | some octets => .ok octets
    | none => .error (.size size bs.length)

end Envelope.Base64
