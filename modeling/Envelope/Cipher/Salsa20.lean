import Envelope.Cipher.Grid

/-!
# The Salsa20 stream cipher with long nonces

Rounds work on the diagonals of the grid: quad `i` of a diagonal grid holds
the words of the `i`-th diagonal below the main one.
-/

namespace Envelope.Cipher.Salsa20

/-- The rows of a grid rearranged into diagonals. -/
def toDiagonals (g : Grid) : Grid :=
  ⟨⟨g.a.w0, g.b.w1, g.c.w2, g.d.w3⟩, ⟨g.b.w0, g.c.w1, g.d.w2, g.a.w3⟩,
   ⟨g.c.w0, g.d.w1, g.a.w2, g.b.w3⟩, ⟨g.d.w0, g.a.w1, g.b.w2, g.c.w3⟩⟩

/-- The diagonals of a grid rearranged into rows. -/
def toRows (g : Grid) : Grid :=
  ⟨⟨g.a.w0, g.d.w1, g.c.w2, g.b.w3⟩, ⟨g.b.w0, g.a.w1, g.d.w2, g.c.w3⟩,
   ⟨g.c.w0, g.b.w1, g.a.w2, g.d.w3⟩, ⟨g.d.w0, g.c.w1, g.b.w2, g.a.w3⟩⟩

/-- The four quarter rounds of one round, all lanes at once. -/
def round (g : Grid) : Grid :=
  let b := g.b ^^^ (g.a + g.d).turn 7
  let c := g.c ^^^ (b + g.a).turn 9
  let d := g.d ^^^ (c + b).turn 13
  let a := g.a ^^^ (d + c).turn 18
  ⟨a, b, c, d⟩

/-- A round on the columns and a round on the rows of a diagonal grid. -/
def doubleRound (g : Grid) : Grid :=
  let g := round g
  let g := round ⟨g.a, g.d.shift, g.c.shift.shift, g.b.shift.shift.shift⟩
  ⟨g.a, g.d.shift, g.c.shift.shift, g.b.shift.shift.shift⟩

def rounds (g : Grid) : Grid :=
  toRows (Nat.repeat doubleRound 10 (toDiagonals g))

def start (key input : Bytes) : Grid :=
  let k := Quad.ofBytes key 0
  let l := Quad.ofBytes key 16
  let n := Quad.ofBytes input 0
  ⟨⟨Quad.sigma.w0, k.w0, k.w1, k.w2⟩, ⟨k.w3, Quad.sigma.w1, n.w0, n.w1⟩,
   ⟨n.w2, n.w3, Quad.sigma.w2, l.w0⟩, ⟨l.w1, l.w2, l.w3, Quad.sigma.w3⟩⟩

/-- The 64 keystream bytes for a 64-bit counter and a nonce of 8 bytes. -/
def block (key nonce : Bytes) (counter : Nat) : Bytes :=
  let g := start key (nonce ++ Bytes.ofNat 8 counter)
  (rounds g + g).toBytes

@[simp] theorem length_block (key nonce : Bytes) (counter : Nat) :
    (block key nonce counter).length = 64 := by
  simp [block]

/-- A key of 32 bytes derived from a key and 16 bytes of input. -/
def subkey (key input : Bytes) : Bytes :=
  let g := rounds (start key input)
  Quad.toBytes ⟨g.a.w0, g.b.w1, g.c.w2, g.d.w3⟩ ++ Quad.toBytes ⟨g.b.w2, g.b.w3, g.c.w0, g.c.w1⟩

/-- The keystream blocks of a 24-byte nonce from block `first` on. -/
def stream (key nonce : Bytes) (first count : Nat) : Bytes :=
  keystream (block (subkey key (nonce.take 16)) (nonce.drop 16)) first count

@[simp] theorem length_stream (key nonce : Bytes) (first count : Nat) :
    (stream key nonce first count).length = 64 * count :=
  length_keystream (length_block _ _) first count

end Envelope.Cipher.Salsa20
