import Envelope.Bytes

/-!
# The Poly1305 one-time authenticator

The tag is a polynomial over the integers modulo `2^130 - 5`, evaluated by
Horner's rule on plain natural numbers.
-/

namespace Envelope.Cipher.Poly1305

def prime : Nat := (1 <<< 130) - 5

/-- The bits of the multiplier that a key may set. -/
def clampMask : Nat := 0x0ffffffc0ffffffc0ffffffc0fffffff

/-- The value of the message pieces at `r`, each piece read as a number with a
one byte after its last byte. -/
def evaluate (r : Nat) (pieces : List Bytes) : Nat :=
  pieces.foldl (fun acc piece => (acc + Bytes.toNat (piece ++ [1])) * r % prime) 0

/-- The tag of a message under a one-time key of 32 bytes. -/
def tag (key message : Bytes) : Bytes :=
  let r := Bytes.toNat (key.take 16) &&& clampMask
  let s := Bytes.toNat ((key.drop 16).take 16)
  Bytes.ofNat 16 (evaluate r (Bytes.chunks 16 message) + s)

@[simp] theorem length_tag (key message : Bytes) : (tag key message).length = 16 := by
  simp [tag]

end Envelope.Cipher.Poly1305
