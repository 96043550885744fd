import Envelope.Cipher.Curve25519
import Envelope.Cipher.Sealing
import Envelope.Kdf.Options

/-!
# Cipher suites

A `Suite` gathers the primitives that payloads and key records are built on,
so that everything above can be stated for all of them. `Suite.Lawful` says
what correctness asks of the primitives, and `Suite.standard` is the suite in
use.
-/

namespace Envelope

/-- The primitives: sealing between two parties who computed a shared key,
sealing under a symmetric key, and stretching a password into such a key. -/
structure Suite where
  SharedKey : Type
  publicKey : PrivateKey → PublicKey
  /-- The key that the holder of a private key shares with another party. -/
  sharedKey : PublicKey → PrivateKey → SharedKey
  sealBox : SharedKey → Nonce → Bytes → Bytes
  openBox : SharedKey → Nonce → Bytes → Option Bytes
  sealBody : SymmetricKey → Nonce → Bytes → Bytes
  openBody : SymmetricKey → Nonce → Bytes → Option Bytes
  /-- The key of a password; only asked for under options that are valid. -/
  stretch : Kdf.Options → (password : String) → Salt → SymmetricKey

namespace Suite

/-- Opening undoes sealing between two parties. -/
def OpensBoxes (suite : Suite) : Prop :=
  ∀ key nonce message, suite.openBox key nonce (suite.sealBox key nonce message) = some message

/-- Opening undoes sealing under a symmetric key. -/
def OpensBodies (suite : Suite) : Prop :=
  ∀ key nonce message, suite.openBody key nonce (suite.sealBody key nonce message) = some message

/-- Two parties compute the same shared key. -/
def SharesKeys (suite : Suite) : Prop :=
  ∀ a b, suite.sharedKey (suite.publicKey a) b = suite.sharedKey (suite.publicKey b) a

/-- What correctness asks of the primitives. -/
structure Lawful (suite : Suite) : Prop where
  opensBoxes : suite.OpensBoxes
  opensBodies : suite.OpensBodies
  sharesKeys : suite.SharesKeys

def keyPair (suite : Suite) (key : PrivateKey) : KeyPair :=
  ⟨suite.publicKey key, key⟩

/-- X25519 with XSalsa20-Poly1305 between two parties, XChaCha20-Poly1305 under
a symmetric key, and Argon2 for passwords. -/
def standard : Suite where
  SharedKey := Bytes
  publicKey key := ⟨Cipher.Curve25519.publicPoint key.octets⟩
  sharedKey point key :=
    Cipher.Salsa20.subkey (Cipher.Curve25519.sharedPoint point.octets key.octets).toBytes
      (List.replicate 16 0)
  sealBox key nonce message := Cipher.XSalsa20Poly1305.encrypt key nonce.octets.toBytes message
  openBox key nonce message := Cipher.XSalsa20Poly1305.decrypt key nonce.octets.toBytes message
  sealBody key nonce message :=
    Cipher.XChaCha20Poly1305.encrypt key.octets.toBytes nonce.octets.toBytes message
  openBody key nonce message :=
    Cipher.XChaCha20Poly1305.decrypt key.octets.toBytes nonce.octets.toBytes message
  stretch options password salt :=
    ⟨options.cost.hash 32 (Bytes.ofString password) salt.octets.toBytes,
      Kdf.Argon2.Cost.length_hash _ _ _ (by decide)⟩

theorem opensBoxes_standard : standard.OpensBoxes := by
  dsimp only [OpensBoxes, standard]
  intro key nonce message
  exact Cipher.XSalsa20Poly1305.decrypt_encrypt key nonce.octets.toBytes message

theorem opensBodies_standard : standard.OpensBodies := by
  dsimp only [OpensBodies, standard]
  intro key nonce message
  exact Cipher.XChaCha20Poly1305.decrypt_encrypt key.octets.toBytes nonce.octets.toBytes message

end Suite

end Envelope
