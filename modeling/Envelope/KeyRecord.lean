import Envelope.Kdf.Options

/-!
# Key records

A private key sealed under a password, as it is stored: with the options, the
salt and the nonce that opening it takes.
-/

namespace Envelope

/-- Whether the key of a record is sealed. -/
inductive LockState
  | locked
  | unlocked
deriving DecidableEq, Repr

/-- A private key sealed under a password. -/
@[ext] structure KeyRecord where
  label : Option String
  state : LockState
  options : Kdf.Options
  nonce : Nonce
  salt : Salt
  sealedKey : Bytes
deriving DecidableEq

namespace KeyRecord

/-- The record under another label. -/
def withLabel (record : KeyRecord) (label : String) : KeyRecord :=
  { record with label := some label }

/-! ## Format -/

def stateNames : List (String × LockState) :=
  [("locked", .locked), ("unlocked", .unlocked)]

def stateName : LockState → String
  | .locked => "locked"
  | .unlocked => "unlocked"

def stateDecoder : Json.Decoder LockState := .choice stateNames

inductive Field
  | label
  | state
  | options
  | nonce
  | salt
  | sealedKey
deriving DecidableEq, Repr

/-- How the fields of a record are read. A record need not be labelled, and is
locked unless it says otherwise. -/
def layout : Json.Layout Field where
  title := "ProtectedKeyRecord"
  order := [.label, .state, .options, .nonce, .salt, .sealedKey]
  field
    | .label => ⟨"label", Option String, .nullable .text, some none⟩
    | .state => ⟨"type", LockState, stateDecoder, some .locked⟩
    | .options => ⟨"aopts", Kdf.Options, Kdf.Options.decoder, none⟩
    | .nonce => ⟨"snonce", Nonce, Nonce.decoder, none⟩
    | .salt => ⟨"asalt", Salt, Salt.decoder, none⟩
    | .sealedKey => ⟨"sbox", Bytes, Bytes.decoder, none⟩

def decoder : Json.Decoder KeyRecord := fun reading => do
  let v ← layout.read reading
  return ⟨v .label, v .state, v .options, v .nonce, v .salt, v .sealedKey⟩

/-- A record as a JSON value. The label is left out where there is none. -/
def toJson (record : KeyRecord) : Json.Value :=
  let label := match record.label with
    | some label => [("label", Json.Value.text label)]
    | none => []
  .object (label ++ [
    ("type", .text (stateName record.state)),
    ("aopts", record.options.toJson),
    ("snonce", record.nonce.toJson),
    ("asalt", record.salt.toJson),
    ("sbox", Bytes.toJson record.sealedKey)])

def encode (record : KeyRecord) : Bytes :=
  record.toJson.write .indented

/-- The record of a stored form. Its options must be valid. -/
def decode (text : Bytes) : Except Error KeyRecord := do
  let record ← (Json.decode decoder text).mapError fun fault => .configuration (.record fault)
  record.options.validate
  return record

end KeyRecord

end Envelope
