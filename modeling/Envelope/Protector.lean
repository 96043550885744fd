import Envelope.KeyRecord
import Envelope.Sampler

/-!
# Protecting private keys by passwords

A password is stretched over a fresh salt into the key that seals a private
key. Records keep the options they were sealed with, whatever the options for
new records are.
-/

namespace Envelope

/-- What seals and opens key records. -/
structure Protector where
  /-- The memory that one derivation may take, in KiB. -/
  maxMemory : UInt32
  options : Kdf.Options
deriving DecidableEq

namespace Protector

/-- The memory that one derivation may take where nothing else is said: 4 GiB. -/
def standardMaxMemory : UInt32 := 4194304

variable (suite : Suite)

/-- The key of a password. Options beyond the limit are refused before anything
else is looked at; they are never scaled down. -/
def derive (limit : UInt32) (options : Kdf.Options) (password : String) (salt : Salt) :
    Except Error SymmetricKey := do
  if limit < options.memory then
    throw (.resource (.derivation options.memory limit))
  options.validate
  return suite.stretch options password salt

/-- Seals a private key under a password with the given options. -/
def protectWith (protector : Protector) (key : PrivateKey) (password : String)
    (options : Kdf.Options) : Sampler Error KeyRecord := do
  options.validate
  let salt ← Sampler.salt
  let derived ← derive suite protector.maxMemory options password salt
  let nonce ← Sampler.nonce
  let sealedKey ← Sampler.sealBody suite derived nonce key.octets.toBytes
  return { label := none, state := .locked, options, nonce, salt, sealedKey }

/-- Seals a private key under a password with the options for new records. -/
def protect (protector : Protector) (key : PrivateKey) (password : String) :
    Sampler Error KeyRecord :=
  protectWith suite protector key password protector.options

def unlock (protector : Protector) (record : KeyRecord) (password : String) :
    Except Error PrivateKey := do
  if record.state ≠ .locked then
    throw .notLocked
  let derived ← derive suite protector.maxMemory record.options password record.salt
  match suite.openBody derived record.nonce record.sealedKey >>= Octets.ofBytes? with
  | some octets => return ⟨octets⟩
  | none => throw .decryption

/-- Whether opening a record comes as far as deriving a key. -/
def derives (protector : Protector) (record : KeyRecord) : Bool :=
  record.state = .locked && record.options.memory ≤ protector.maxMemory &&
    record.options.fault?.isNone

/-- The failure of every attempt that fails on a record with a lock state and
options. -/
def failure (protector : Protector) (state : LockState) (options : Kdf.Options) : Error :=
  if state ≠ .locked then .notLocked
  else if protector.maxMemory < options.memory then
    .resource (.derivation options.memory protector.maxMemory)
  else
    match options.fault? with
    | some fault => .configuration fault
    | none => .decryption

theorem derives_iff {protector : Protector} {record : KeyRecord} :
    protector.derives record = true ↔ record.state = .locked ∧
      record.options.memory ≤ protector.maxMemory ∧ record.options.validate = .ok () := by
  simp [derives, and_assoc, Kdf.Options.fault?_eq_none_iff]

theorem failure_of_derives {protector : Protector} {record : KeyRecord}
    (h : protector.derives record = true) :
    protector.failure record.state record.options = .decryption := by
  obtain ⟨hstate, hmemory, hvalid⟩ := derives_iff.1 h
  rw [failure, if_neg (not_not_intro hstate), if_neg (UInt32.not_lt.2 hmemory),
    Kdf.Options.fault?_eq_none_iff.2 hvalid]

/-- A record that no key is derived for is refused without the suite and whatever
the password is. -/
theorem unlock_eq_of_not_derives {protector : Protector} {record : KeyRecord}
    (h : protector.derives record = false) (password : String) :
    unlock suite protector record password =
      .error (protector.failure record.state record.options) := by
  by_cases hstate : record.state = .locked
  · by_cases hmemory : protector.maxMemory < record.options.memory
    · simp [unlock, failure, derive, hstate, hmemory, throw, throwThe, MonadExceptOf.throw, bind,
        Except.bind]
    · cases hfault : record.options.fault? with
      | some fault =>
        simp [unlock, failure, derive, Kdf.Options.validate, hstate, hmemory, hfault, bind,
          Except.bind]
      | none =>
        have hvalid := Kdf.Options.fault?_eq_none_iff.1 hfault
        rw [derives_iff.2 ⟨hstate, UInt32.not_lt.1 hmemory, hvalid⟩] at h
        cases h
  · simp [unlock, failure, hstate, throw, throwThe, MonadExceptOf.throw, bind, Except.bind]

/-- Seals the key of a record under another password, with the record's own
options and label. -/
def changePassword (protector : Protector) (record : KeyRecord) (old new : String) :
    Sampler Error KeyRecord := do
  let key ← unlock suite protector record old
  let renewed ← protectWith suite protector key new record.options
  return { renewed with label := record.label }

/-- Draws a key pair and seals it under a password, labelled with its public
key. -/
def generate (protector : Protector) (password : String) : Sampler Error (KeyPair × KeyRecord) := do
  let key ← Sampler.privateKey
  let pair := suite.keyPair key
  let record ← protect suite protector key password
  return (pair, record.withLabel pair.publicKey.toBase64)

end Protector

end Envelope
