import Envelope.Cipher.ChaCha20
import Envelope.Cipher.Poly1305
import Envelope.Cipher.Salsa20

/-!
# Authenticated encryption

Two ways to seal a message under a key of 32 bytes and a nonce of 24 bytes:
XSalsa20 with the tag in front, and XChaCha20 with the tag behind. Both open
what they seal.
-/

namespace Envelope.Cipher

/-- The number of 64-byte blocks that cover `n` bytes. -/
def blockCount (n : Nat) : Nat := (n + 63) / 64

theorem le_blockCount (n : Nat) : n ≤ 64 * blockCount n := by
  unfold blockCount
  omega

/-! ## XSalsa20-Poly1305, tag first -/

namespace XSalsa20Poly1305

/-- The tag of a masked message, under the first 32 keystream bytes. -/
def tag (key nonce body : Bytes) : Bytes :=
  Poly1305.tag ((Salsa20.stream key nonce 0 1).take 32) body

@[simp] theorem length_tag (key nonce body : Bytes) : (tag key nonce body).length = 16 :=
  Poly1305.length_tag _ _

/-- The mask of a message of `size` bytes: the keystream from byte 32 on. -/
def mask (key nonce : Bytes) (size : Nat) : Bytes :=
  (Salsa20.stream key nonce 0 (blockCount (32 + size))).drop 32

theorem le_length_mask (key nonce : Bytes) (size : Nat) :
    size ≤ (mask key nonce size).length := by
  have := le_blockCount (32 + size)
  simp only [mask, List.length_drop, Salsa20.length_stream]
  omega

/-- The tag followed by the masked message. -/
def encrypt (key nonce message : Bytes) : Bytes :=
  let body := Bytes.xor message (mask key nonce message.length)
  tag key nonce body ++ body

def decrypt (key nonce sealed : Bytes) : Option Bytes :=
  let body := sealed.drop 16
  if sealed.take 16 = tag key nonce body then
    some (Bytes.xor body (mask key nonce body.length))
  else none

theorem decrypt_encrypt (key nonce message : Bytes) :
    decrypt key nonce (encrypt key nonce message) = some message := by
  have hm := le_length_mask key nonce message.length
  have hl := Bytes.length_xor_of_le hm
  unfold decrypt encrypt
  dsimp only
  rw [List.drop_left' (length_tag _ _ _), List.take_left' (length_tag _ _ _),
    if_pos (Eq.refl _), hl, Bytes.xor_xor _ _ hm]

end XSalsa20Poly1305

/-! ## XChaCha20-Poly1305, tag last -/

namespace XChaCha20Poly1305

/-- The tag of a masked message without associated data: zero filled to whole
pieces, then the two lengths. -/
def tag (key nonce body : Bytes) : Bytes :=
  let fill := List.replicate ((16 - body.length % 16) % 16) 0
  Poly1305.tag ((ChaCha20.stream key nonce 0 1).take 32)
    (body ++ fill ++ Bytes.ofNat 8 0 ++ Bytes.ofNat 8 body.length)

@[simp] theorem length_tag (key nonce body : Bytes) : (tag key nonce body).length = 16 := by
  simp [tag]

/-- The mask of a message of `size` bytes, from the second block on. -/
def mask (key nonce : Bytes) (size : Nat) : Bytes :=
  ChaCha20.stream key nonce 1 (blockCount size)

theorem le_length_mask (key nonce : Bytes) (size : Nat) :
    size ≤ (mask key nonce size).length := by
  simpa only [mask, ChaCha20.length_stream] using le_blockCount size

/-- The masked message followed by the tag. -/
def encrypt (key nonce message : Bytes) : Bytes :=
  let body := Bytes.xor message (mask key nonce message.length)
  body ++ tag key nonce body

def decrypt (key nonce sealed : Bytes) : Option Bytes :=
  let size := sealed.length - 16
  let body := sealed.take size
  if sealed.drop size = tag key nonce body then
    some (Bytes.xor body (mask key nonce body.length))
  else none

theorem decrypt_encrypt (key nonce message : Bytes) :
    decrypt key nonce (encrypt key nonce message) = some message := by
  have hm := le_length_mask key nonce message.length
  have hl := Bytes.length_xor_of_le hm
  unfold decrypt encrypt
  simp only [List.length_append, length_tag, Nat.add_sub_cancel]
  rw [List.take_left, List.drop_left, if_pos (Eq.refl _), hl, Bytes.xor_xor _ _ hm]

end XChaCha20Poly1305

end Envelope.Cipher
