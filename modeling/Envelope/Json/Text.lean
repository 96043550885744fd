import Envelope.Bytes

/-!
# Quoted texts

A text is written between quotation marks, with short escapes where there are
some and `\u00xx` for the other control characters. Reading accepts every
escape and keeps the escaped UTF-16 units apart until the closing mark, so
that a well-formed text with an unpaired unit can be told from a malformed one.
-/

namespace Envelope.Json.Text

abbrev mark : UInt8 := 34

abbrev backslash : UInt8 := 92

abbrev letterU : UInt8 := 117

/-! ## Writing -/

def hexDigit (n : Nat) : UInt8 :=
  UInt8.ofNat (if n < 10 then 48 + n else 87 + n)

/-- The letter of a short escape. -/
def shortEscape? (byte : UInt8) : Option UInt8 :=
  if byte = 34 then some 34
  else if byte = 92 then some 92
  else if byte = 8 then some 98
  else if byte = 9 then some 116
  else if byte = 10 then some 110
  else if byte = 12 then some 102
  else if byte = 13 then some 114
  else none

def escape (byte : UInt8) : Bytes :=
  match shortEscape? byte with
  | some letter => [backslash, letter]
  | none =>
    if byte < 32 then
      [backslash, letterU, 48, 48, hexDigit (byte.toNat / 16), hexDigit (byte.toNat % 16)]
    else [byte]

def quote (text : String) : Bytes :=
  mark :: (Bytes.ofString text).flatMap escape ++ [mark]

/-! ## Reading -/

/-- What a quoted text is made of. -/
inductive Piece
  | byte (byte : UInt8)
  | unit (value : Nat)
deriving DecidableEq, Repr

def hexValue? (byte : UInt8) : Option Nat :=
  if 48 ≤ byte ∧ byte ≤ 57 then some (byte.toNat - 48)
  else if 97 ≤ byte ∧ byte ≤ 102 then some (byte.toNat - 87)
  else if 65 ≤ byte ∧ byte ≤ 70 then some (byte.toNat - 55)
  else none

/-- The UTF-16 unit of four hexadecimal digits. -/
def unit? (a b c d : UInt8) : Option Nat := do
  let a ← hexValue? a
  let b ← hexValue? b
  let c ← hexValue? c
  let d ← hexValue? d
  return ((a * 16 + b) * 16 + c) * 16 + d

def unescape? (letter : UInt8) : Option UInt8 :=
  if letter = 34 then some 34
  else if letter = 92 then some 92
  else if letter = 47 then some 47
  else if letter = 98 then some 8
  else if letter = 102 then some 12
  else if letter = 110 then some 10
  else if letter = 114 then some 13
  else if letter = 116 then some 9
  else none

/-- The pieces up to the closing mark, and what follows it; `before` holds the
pieces already read, latest first. A raw control character, an unknown escape
or a missing mark ends the reading. -/
def pieces (before : List Piece) : Bytes → Option (List Piece × Bytes)
  | [] => none
  | byte :: rest =>
    if byte = mark then some (before.reverse, rest)
    else if byte = backslash then
      match rest with
      | [] => none
      | letter :: rest =>
        if letter = letterU then
          match rest with
          | a :: b :: c :: d :: rest =>
            match unit? a b c d with
            | some unit => pieces (.unit unit :: before) rest
            | none => none
          | _ => none
        else
          match unescape? letter with
          | some byte => pieces (.byte byte :: before) rest
          | none => none
    else if byte < 32 then none
    else pieces (.byte byte :: before) rest

/-- The UTF-8 form of a code point that is no surrogate. -/
def encodePoint (point : Nat) : Bytes :=
  String.utf8EncodeChar (Char.ofNat point)

/-- Whether a UTF-16 unit needs another one behind it. -/
def isHigh (unit : Nat) : Bool := 0xd800 ≤ unit && unit < 0xdc00

/-- Whether a UTF-16 unit needs another one in front of it. -/
def isLow (unit : Nat) : Bool := 0xdc00 ≤ unit && unit < 0xe000

/-- The code point of a pair of units. -/
def pairPoint (high low : Nat) : Nat :=
  0x10000 + (high - 0xd800) * 0x400 + (low - 0xdc00)

/-- The UTF-8 form of the pieces, if every unit that needs another one has it;
`before` holds the bytes already formed, latest first. -/
def assemble (before : Bytes) : List Piece → Option Bytes
  | [] => some before.reverse
  | .byte byte :: rest => assemble (byte :: before) rest
  | .unit unit :: rest =>
    if isLow unit then none
    else if isHigh unit then
      match rest with
      | .unit low :: rest =>
        if isLow low then assemble ((encodePoint (pairPoint unit low)).reverse ++ before) rest
        else none
      | _ => none
    else assemble ((encodePoint unit).reverse ++ before) rest

/-- The text that the pieces denote, if they are Unicode. -/
def ofPieces? (ps : List Piece) : Option String :=
  assemble [] ps >>= Bytes.toString?

/-! ## What is written is read -/

theorem backslash_ne_mark : backslash ≠ mark := by decide

theorem pieces_mark (before : List Piece) (rest : Bytes) :
    pieces before (mark :: rest) = some (before.reverse, rest) := by
  rw [pieces.eq_def]
  simp only [if_true]

theorem pieces_unit {a b c d : UInt8} {unit : Nat} (h : unit? a b c d = some unit)
    (before : List Piece) (rest : Bytes) :
    pieces before (backslash :: letterU :: a :: b :: c :: d :: rest) =
      pieces (.unit unit :: before) rest := by
  rw [pieces.eq_def]
  simp only [if_neg backslash_ne_mark, if_true, h]

theorem pieces_short {letter byte : UInt8} (h : unescape? letter = some byte)
    (hu : letter ≠ letterU) (before : List Piece) (rest : Bytes) :
    pieces before (backslash :: letter :: rest) = pieces (.byte byte :: before) rest := by
  rw [pieces.eq_def]
  simp only [if_neg backslash_ne_mark, if_true, if_neg hu, h]

theorem pieces_plain {byte : UInt8} (h : ¬byte < 32) (hm : byte ≠ mark) (hb : byte ≠ backslash)
    (before : List Piece) (rest : Bytes) :
    pieces before (byte :: rest) = pieces (.byte byte :: before) rest := by
  rw [pieces.eq_def]
  simp only [if_neg hm, if_neg hb, if_neg h]

/-- The piece that a written byte is read as. -/
def pieceOf (byte : UInt8) : Piece :=
  if shortEscape? byte = none ∧ byte < 32 then .unit byte.toNat else .byte byte

theorem unescape?_shortEscape {byte letter : UInt8} (h : shortEscape? byte = some letter) :
    unescape? letter = some byte ∧ letter ≠ letterU := by
  unfold shortEscape? at h
  repeat' split at h
  all_goals first
    | (obtain rfl := Option.some.inj h; subst byte; decide)
    | simp at h

theorem unit?_hexDigit {byte : UInt8} (h : byte < 32) :
    unit? 48 48 (hexDigit (byte.toNat / 16)) (hexDigit (byte.toNat % 16)) = some byte.toNat := by
  have : ∀ n : Fin 32, unit? 48 48 (hexDigit (n / 16)) (hexDigit (n % 16)) = some n.val := by
    decide
  exact this ⟨byte.toNat, h⟩

theorem pieces_escape_append (before : List Piece) (byte : UInt8) (rest : Bytes) :
    pieces before (escape byte ++ rest) = pieces (pieceOf byte :: before) rest := by
  unfold escape pieceOf
  cases hs : shortEscape? byte with
  | some letter =>
    obtain ⟨hl, hu⟩ := unescape?_shortEscape hs
    simpa using pieces_short hl hu before rest
  | none =>
    by_cases h32 : byte < 32
    · simpa [h32] using pieces_unit (unit?_hexDigit h32) before rest
    · have hm : byte ≠ mark := by rintro rfl; exact absurd hs (by decide)
      have hb : byte ≠ backslash := by rintro rfl; exact absurd hs (by decide)
      simpa [h32] using pieces_plain h32 hm hb before rest

/-- A quoted text is read up to its closing mark. -/
theorem pieces_quoted (before : List Piece) (bs rest : Bytes) :
    pieces before (bs.flatMap escape ++ mark :: rest) =
      some (before.reverse ++ bs.map pieceOf, rest) := by
  induction bs generalizing before with
  | nil => simpa using pieces_mark before rest
  | cons b bs ih =>
    rw [List.flatMap_cons, List.append_assoc, pieces_escape_append, ih]
    simp

theorem assemble_unit {unit : Nat} (h : unit < 0xd800) (before : Bytes) (rest : List Piece) :
    assemble before (.unit unit :: rest) =
      assemble ((encodePoint unit).reverse ++ before) rest := by
  have hl : isLow unit = false := by simp [isLow]; omega
  have hh : isHigh unit = false := by simp [isHigh]; omega
  rw [assemble.eq_def]
  simp [hl, hh]

theorem assemble_pieceOf (before bs : Bytes) :
    assemble before (bs.map pieceOf) = some (before.reverse ++ bs) := by
  have low : ∀ n : Fin 32, encodePoint n = [UInt8.ofNat n] := by decide
  induction bs generalizing before with
  | nil => simp [assemble]
  | cons b bs ih =>
    have hstep : assemble before (pieceOf b :: bs.map pieceOf) =
        assemble (b :: before) (bs.map pieceOf) := by
      unfold pieceOf
      split
      · rename_i h
        have hb : b.toNat < 32 := h.2
        have he : encodePoint b.toNat = [b] := by simpa using low ⟨b.toNat, hb⟩
        rw [assemble_unit (by omega), he]
        rfl
      · rw [assemble]
    rw [List.map_cons, hstep, ih]
    simp

theorem ofPieces?_pieceOf (s : String) : ofPieces? ((Bytes.ofString s).map pieceOf) = some s := by
  simp [ofPieces?, assemble_pieceOf]

end Envelope.Json.Text
