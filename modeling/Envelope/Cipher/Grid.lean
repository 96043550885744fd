import Envelope.Bytes

/-!
# Four-by-four grids of 32-bit words

Both stream ciphers mix a grid of sixteen words. A `Quad` holds four words
that are worked on side by side, a `Grid` four quads. A round mixes the four
quads with each other; moving the lanes of three quads in between makes the
next round mix across the lanes.
-/

namespace Envelope.Cipher

@[ext] structure Quad where
  w0 : UInt32
  w1 : UInt32
  w2 : UInt32
  w3 : UInt32
deriving DecidableEq

namespace Quad

def add (p q : Quad) : Quad :=
  ⟨p.w0 + q.w0, p.w1 + q.w1, p.w2 + q.w2, p.w3 + q.w3⟩

def xor (p q : Quad) : Quad :=
  ⟨p.w0 ^^^ q.w0, p.w1 ^^^ q.w1, p.w2 ^^^ q.w2, p.w3 ^^^ q.w3⟩

instance : Add Quad := ⟨add⟩
instance : XorOp Quad := ⟨xor⟩

def turnWord (w : UInt32) (n : UInt32) : UInt32 :=
  (w <<< n) ||| (w >>> (32 - n))

def turn (q : Quad) (n : UInt32) : Quad :=
  ⟨turnWord q.w0 n, turnWord q.w1 n, turnWord q.w2 n, turnWord q.w3 n⟩

/-- The lanes moved one place forward, the first to the end. -/
def shift (q : Quad) : Quad :=
  ⟨q.w1, q.w2, q.w3, q.w0⟩

def ofBytes (bs : Bytes) (i : Nat) : Quad :=
  ⟨bs.word32 i, bs.word32 (i + 4), bs.word32 (i + 8), bs.word32 (i + 12)⟩

def toBytes (q : Quad) : Bytes :=
  Bytes.ofUInt32 q.w0 ++ Bytes.ofUInt32 q.w1 ++ Bytes.ofUInt32 q.w2 ++ Bytes.ofUInt32 q.w3

@[simp] theorem length_toBytes (q : Quad) : q.toBytes.length = 16 := by
  simp [toBytes, Bytes.ofUInt32]

/-- The constant of both ciphers for keys of 32 bytes: "expand 32-byte k". -/
def sigma : Quad :=
  ⟨0x61707865, 0x3320646e, 0x79622d32, 0x6b206574⟩

end Quad

@[ext] structure Grid where
  a : Quad
  b : Quad
  c : Quad
  d : Quad
deriving DecidableEq

namespace Grid

def add (g h : Grid) : Grid :=
  ⟨g.a + h.a, g.b + h.b, g.c + h.c, g.d + h.d⟩

instance : Add Grid := ⟨add⟩

/-- The 64 bytes of a grid, quad by quad. -/
def toBytes (g : Grid) : Bytes :=
  g.a.toBytes ++ g.b.toBytes ++ g.c.toBytes ++ g.d.toBytes

@[simp] theorem length_toBytes (g : Grid) : g.toBytes.length = 64 := by
  simp [toBytes]

end Grid

/-- What a block function gives for the counters `first`, `first + 1`, …,
`count` blocks in all. -/
def keystream (block : Nat → Bytes) (first : Nat) : (count : Nat) → Bytes
  | 0 => []
  | count + 1 => block first ++ keystream block (first + 1) count

theorem length_keystream {block : Nat → Bytes} (h : ∀ i, (block i).length = 64)
    (first count : Nat) : (keystream block first count).length = 64 * count := by
  induction count generalizing first with
  | zero => rfl
  | succ count ih => simp [keystream, h, ih]; omega

end Envelope.Cipher
