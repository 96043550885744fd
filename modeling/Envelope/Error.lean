import Envelope.Json.Decode
import Envelope.Key.Format

/-!
# Errors

An `Error` is a cause. Causes fall into a few kinds; the wording of an error
is the lead of its kind followed by the detail of the cause. Failing to
decrypt has no detail, so that nothing can be learnt from how it failed.
-/

namespace Envelope

/-- Why recipients, or the text of one, are refused. -/
inductive RecipientFault
  | noRecipient
  | zeroKey
  | size (actual : Nat)
  | malformed (fault : Base64.SizedFault)
  | listedTwice (key : PublicKey)
  | noBox (key : PublicKey)
  | unlisted (key : PublicKey)
deriving DecidableEq

/-- Which cost parameter of a key derivation is out of range. -/
inductive CostFault
  | memory
  | iterations
  | noLanes
  | manyLanes
deriving DecidableEq

/-- Why options or a key record are refused. -/
inductive ConfigurationFault
  | version (number : UInt32)
  | cost (fault : CostFault)
  | record (fault : Json.Fault)
deriving DecidableEq

/-- What there is not enough of. -/
inductive ResourceFault
  | randomness
  /-- The memory of one key derivation, in KiB. -/
  | derivation (memory limit : UInt32)
  /-- The memory of all unlocking, in KiB. -/
  | unlocking (memory budget : UInt32)
  | poolClosed
deriving DecidableEq

/-- Why an operation on payloads or key records failed. -/
inductive Error
  | decryption
  | recipient (fault : RecipientFault)
  | configuration (fault : ConfigurationFault)
  | resource (fault : ResourceFault)
  /-- A password was tried on a record that is not locked. -/
  | notLocked
  | serialization (fault : Json.Fault)
deriving DecidableEq

def RecipientFault.message : RecipientFault → String
  | .noRecipient => "at least one recipient is required"
  | .zeroKey => "all-zero public key"
  | .size actual => "public key must be 32 bytes, got " ++ toString actual
  | .malformed fault => PublicKey.faultMessage fault
  | .listedTwice key => "recipient " ++ key.toBase64 ++ " listed twice"
  | .noBox key => "listed recipient " ++ key.toBase64 ++ " has no box"
  | .unlisted key => "box for " ++ key.toBase64 ++ " missing from the recipient list"

def CostFault.message : CostFault → String
  | .memory => "memory cost is too small"
  | .iterations => "time cost is too small"
  | .noLanes => "not enough threads"
  | .manyLanes => "too many threads"

def ConfigurationFault.message : ConfigurationFault → String
  | .version number => "unsupported argon2 version " ++ toString number.toNat
  | .cost fault => "invalid argon2 parameters: " ++ fault.message
  | .record fault => "malformed key record: " ++ fault.message

def ResourceFault.message : ResourceFault → String
  | .randomness => "secure random source unavailable: unexpected situation"
  | .derivation memory limit =>
    "argon2 memory cost " ++ toString memory.toNat ++ " KiB exceeds the "
      ++ toString limit.toNat ++ " KiB limit"
  | .unlocking memory budget =>
    "kdf memory cost " ++ toString memory.toNat ++ " KiB exceeds the "
      ++ toString budget.toNat ++ " KiB unlock budget"
  | .poolClosed => "unlock pool closed"

namespace Error

/-- The kinds of errors. The ciphers of this library never refuse to seal, so
no error is of the kind `encryption`. -/
inductive Kind
  | decryption
  | recipient
  | configuration
  | resource
  | unsupported
  | encryption
  | serialization
deriving DecidableEq, Repr

/-- The wording of an error of a kind. -/
def Kind.sentence (kind : Kind) (detail : String) : String :=
  match kind with
  | .decryption => "decryption failed (wrong key or tampered data)"
  | .recipient => "invalid recipient: " ++ detail
  | .configuration => "invalid configuration: " ++ detail
  | .resource => "resource exhausted: " ++ detail
  | .unsupported => "unsupported operation: " ++ detail
  | .encryption => "encryption failed: " ++ detail
  | .serialization => "serialization error: " ++ detail

def kind : Error → Kind
  | .decryption => .decryption
  | .recipient _ => .recipient
  | .configuration _ => .configuration
  | .resource _ => .resource
  | .notLocked => .unsupported
  | .serialization _ => .serialization

/-- What the wording of an error adds to that of its kind. -/
def detail : Error → String
  | .decryption => ""
  | .recipient fault => fault.message
  | .configuration fault => fault.message
  | .resource fault => fault.message
  | .notLocked => "only locked records can be opened with a password"
  | .serialization fault => fault.message

def message (error : Error) : String :=
  error.kind.sentence error.detail

end Error

namespace PublicKey

def ofBytes (bs : Bytes) : Except Error PublicKey :=
  match Octets.ofBytes? bs with
  | some octets => .ok ⟨octets⟩
  | none => .error (.recipient (.size bs.length))

def parse (text : String) : Except Error PublicKey :=
  (ofBase64 text).mapError fun fault => .recipient (.malformed fault)

end PublicKey

end Envelope
