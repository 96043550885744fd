import Envelope.Cipher.Grid

/-!
# The ChaCha20 stream cipher with long nonces

The block function, the subkey derivation from the first 16 nonce bytes, and
the keystream under a nonce of 24 bytes.
-/

namespace Envelope.Cipher.ChaCha20

/-- The four quarter rounds of one round, all lanes at once. -/
def round (g : Grid) : Grid :=
  let a := g.a + g.b
  let d := (g.d ^^^ a).turn 16
  let c := g.c + d
  let b := (g.b ^^^ c).turn 12
  let a := a + b
  let d := (d ^^^ a).turn 8
  let c := c + d
  let b := (b ^^^ c).turn 7
  ⟨a, b, c, d⟩

/-- A round on the columns and a round on the diagonals. -/
def doubleRound (g : Grid) : Grid :=
  let g := round g
  let g := round ⟨g.a, g.b.shift, g.c.shift.shift, g.d.shift.shift.shift⟩
  ⟨g.a, g.b.shift.shift.shift, g.c.shift.shift, g.d.shift⟩

def rounds (g : Grid) : Grid :=
  Nat.repeat doubleRound 10 g

def start (key input : Bytes) : Grid :=
  ⟨.sigma, .ofBytes key 0, .ofBytes key 16, .ofBytes input 0⟩

/-- The 64 keystream bytes for a 32-bit counter and a nonce of 12 bytes. -/
def block (key nonce : Bytes) (counter : Nat) : Bytes :=
  let g := start key (Bytes.ofNat 4 counter ++ nonce)
  (rounds g + g).toBytes

@[simp] theorem length_block (key nonce : Bytes) (counter : Nat) :
    (block key nonce counter).length = 64 := by
  simp [block]

/-- A key of 32 bytes derived from a key and 16 bytes of input. -/
def subkey (key input : Bytes) : Bytes :=
  let g := rounds (start key input)
  g.a.toBytes ++ g.d.toBytes

/-- The keystream blocks of a 24-byte nonce from block `first` on. -/
def stream (key nonce : Bytes) (first count : Nat) : Bytes :=
  keystream (block (subkey key (nonce.take 16)) (List.replicate 4 0 ++ nonce.drop 16)) first count

@[simp] theorem length_stream (key nonce : Bytes) (first count : Nat) :
    (stream key nonce first count).length = 64 * count :=
  length_keystream (length_block _ _) first count

end Envelope.Cipher.ChaCha20
