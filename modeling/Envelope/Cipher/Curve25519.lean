import Envelope.Octets

/-!
# Diffie–Hellman on Curve25519

The Montgomery ladder over natural numbers modulo `2^255 - 19`. A secret is
clamped and then reduced modulo the order of the base point, so that on points
outside the prime-order group the result differs from that of the unreduced
secret.
-/

namespace Envelope.Cipher.Curve25519

def prime : Nat := (1 <<< 255) - 19

def order : Nat := (1 <<< 252) + 27742317777372353535851937790883648493

/-- The power modulo the prime, by squaring over the low `bits` bits of the
exponent. -/
def power (x exponent : Nat) : (bits : Nat) → Nat
  | 0 => 1
  | bits + 1 =>
    let half := power x (exponent / 2) bits
    let square := half * half % prime
    if exponent % 2 = 1 then square * x % prime else square

/-- The inverse modulo the prime; the inverse of zero is zero. -/
def inverse (x : Nat) : Nat :=
  power x (prime - 2) 255

/-- Two points of the ladder, each as numerator and denominator. -/
structure Rungs where
  x₂ : Nat
  z₂ : Nat
  x₃ : Nat
  z₃ : Nat
deriving DecidableEq

namespace Rungs

def swap (r : Rungs) : Rungs :=
  ⟨r.x₃, r.z₃, r.x₂, r.z₂⟩

/-- The first point doubled and the sum of both, for points whose difference
has coordinate `u`. -/
def step (u : Nat) (r : Rungs) : Rungs :=
  let a := r.x₂ + r.z₂
  let b := r.x₂ + (prime - r.z₂)
  let aa := a * a % prime
  let bb := b * b % prime
  let e := aa + (prime - bb)
  let da := (r.x₃ + (prime - r.z₃)) * a % prime
  let cb := (r.x₃ + r.z₃) * b % prime
  let sum := da + cb
  let difference := da + (prime - cb)
  { x₂ := aa * bb % prime
    z₂ := e * (aa + 121665 * e) % prime
    x₃ := sum * sum % prime
    z₃ := u * (difference * difference % prime) % prime }

end Rungs

/-- The ladder over the low `bits` bits of a scalar, highest first. -/
def climb (u scalar : Nat) : (bits : Nat) → Rungs → Rungs
  | 0, r => r
  | bits + 1, r =>
    climb u scalar bits <|
      if scalar.testBit bits then (r.swap.step u).swap else r.step u

/-- The coordinate of `scalar` times the point with coordinate `u`; zero where
that is the point at infinity. -/
def multiply (scalar u : Nat) : Nat :=
  let r := climb u scalar 255 ⟨1, 0, u, 1⟩
  r.x₂ * inverse r.z₂ % prime

/-- The scalar of a secret: three low bits and the top bit cleared, the second
bit from the top set, all modulo the order of the base point. -/
def scalar (secret : Octets 32) : Nat :=
  let n := Bytes.toNat secret.toBytes
  (n % (1 <<< 254) / 8 * 8 + (1 <<< 254)) % order

/-- The coordinate that 32 bytes denote; the top bit is ignored. -/
def coordinate (point : Octets 32) : Nat :=
  Bytes.toNat point.toBytes % (1 <<< 255) % prime

def encode (u : Nat) : Octets 32 :=
  ⟨Bytes.ofNat 32 u, Bytes.length_ofNat 32 u⟩

/-- The public point of a secret. -/
def publicPoint (secret : Octets 32) : Octets 32 :=
  encode (multiply (scalar secret) 9)

/-- The point that the holder of a secret shares with the holder of a point.
No point is refused. -/
def sharedPoint (point secret : Octets 32) : Octets 32 :=
  encode (multiply (scalar secret) (coordinate point))

end Envelope.Cipher.Curve25519
