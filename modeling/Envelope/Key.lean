import Envelope.Base64

/-!
# Keys, nonces and salts

Public values have a base64 text; secret ones are described without their
bytes.
-/

namespace Envelope

@[ext] structure PublicKey where
  octets : Octets 32
deriving DecidableEq

@[ext] structure PrivateKey where
  octets : Octets 32
deriving DecidableEq

/-- A key for sealing bodies and private keys. -/
@[ext] structure SymmetricKey where
  octets : Octets 32
deriving DecidableEq

@[ext] structure Nonce where
  octets : Octets 24
deriving DecidableEq

/-- What makes equal passwords give different keys. -/
@[ext] structure Salt where
  octets : Octets 16
deriving DecidableEq

/-- A public key with its private key. Nothing forces the two to belong
together. -/
@[ext] structure KeyPair where
  publicKey : PublicKey
  privateKey : PrivateKey
deriving DecidableEq

namespace PublicKey

instance : LT PublicKey := ⟨fun a b => a.octets < b.octets⟩

instance : DecidableRel (α := PublicKey) (· < ·) :=
  fun a b => inferInstanceAs (Decidable (a.octets < b.octets))

theorem lt_irrefl (a : PublicKey) : ¬a < a :=
  Octets.lt_irrefl a.octets

theorem lt_trans {a b c : PublicKey} : a < b → b < c → a < c :=
  Octets.lt_trans

theorem lt_asymm {a b : PublicKey} (h : a < b) : ¬b < a :=
  fun h' => lt_irrefl a (lt_trans h h')

theorem ne_of_lt {a b : PublicKey} (h : a < b) : a ≠ b :=
  fun e => lt_irrefl a (e ▸ h)

theorem lt_trichotomy (a b : PublicKey) : a < b ∨ a = b ∨ b < a :=
  (Octets.lt_trichotomy a.octets b.octets).imp_right (·.imp_left PublicKey.ext)

/-- The key of all zero bytes, which no party may be addressed by. -/
def zero : PublicKey := ⟨.zero⟩

def toBase64 (key : PublicKey) : String :=
  Base64.encode key.octets.toBytes

def ofBase64 (text : String) : Except Base64.SizedFault PublicKey :=
  (Base64.decodeOctets text).map PublicKey.mk

def describe (key : PublicKey) : String :=
  "PublicKey(" ++ key.toBase64 ++ ")"

end PublicKey

namespace PrivateKey

/-- A private key as it is shown in diagnostics. -/
def describe (_ : PrivateKey) : String :=
  "PrivateKey([REDACTED])"

end PrivateKey

namespace SymmetricKey

def describe (_ : SymmetricKey) : String :=
  "SymmetricKey([REDACTED])"

/-- Opened bytes as a key, where there are 32 of them. -/
def ofOpened? (bs : Bytes) : Option SymmetricKey :=
  (Octets.ofBytes? bs).map SymmetricKey.mk

@[simp] theorem ofOpened?_toBytes (key : SymmetricKey) :
    ofOpened? key.octets.toBytes = some key := by
  simp [ofOpened?]

end SymmetricKey

namespace Nonce

def toBase64 (nonce : Nonce) : String :=
  Base64.encode nonce.octets.toBytes

def ofBase64 (text : String) : Except Base64.SizedFault Nonce :=
  (Base64.decodeOctets text).map Nonce.mk

def describe (nonce : Nonce) : String :=
  "Nonce(" ++ nonce.toBase64 ++ ")"

end Nonce

namespace Salt

def toBase64 (salt : Salt) : String :=
  Base64.encode salt.octets.toBytes

def ofBase64 (text : String) : Except Base64.SizedFault Salt :=
  (Base64.decodeOctets text).map Salt.mk

def describe (salt : Salt) : String :=
  "Salt(" ++ salt.toBase64 ++ ")"

end Salt

namespace KeyPair

def describe (pair : KeyPair) : String :=
  "KeyPair \x7b public: " ++ pair.publicKey.describe ++ ", private: " ++ pair.privateKey.describe
    ++ " \x7d"

end KeyPair

end Envelope
