import Envelope.Enclave.KeyRing
import Envelope.Payload

/-!
# Enclaves

An enclave works on payloads with private keys that its callers name by their
public keys. Once stopped it refuses everything but to tell its status.
-/

namespace Envelope

/-- Every private key of the ring belongs to the public key that it is held
under. -/
def KeyRing.Paired (suite : Suite) (ring : KeyRing) : Prop :=
  ∀ pair ∈ ring.pairs, pair.publicKey = suite.publicKey pair.privateKey

/-- A key ring in use. -/
structure Enclave where
  ring : KeyRing
  running : Bool

namespace Enclave

inductive Status
  | started
  | stopped
deriving DecidableEq, Repr

def start (ring : KeyRing) : Enclave := ⟨ring, true⟩

/-- The enclave, stopped for good. -/
def stop (enclave : Enclave) : Enclave := { enclave with running := false }

def status (enclave : Enclave) : Status :=
  if enclave.running then .started else .stopped

/-- Refuses work once the enclave is stopped. -/
def requireRunning (enclave : Enclave) : Except EnclaveError Unit :=
  if enclave.running then .ok () else .error .stopped

/-- Refuses a caller who names no recipient, even where payloads are forwarded. -/
def requireRecipients (recipients : List PublicKey) : Except EnclaveError Unit :=
  if recipients.isEmpty then .error (.crypto (.recipient .noRecipient)) else .ok ()

/-- The key that is used where the caller names none. -/
def defaultKey (enclave : Enclave) : Except EnclaveError PublicKey := do
  enclave.requireRunning
  return enclave.ring.default

def forwardingKeys (enclave : Enclave) : Except EnclaveError KeySet := do
  enclave.requireRunning
  return enclave.ring.forwarding

def publicKeys (enclave : Enclave) : Except EnclaveError KeySet := do
  enclave.requireRunning
  return enclave.ring.publicKeys

/-- The caller's recipients and then the forwarding keys. -/
def withForwarding (enclave : Enclave) (recipients : List PublicKey) : List PublicKey :=
  recipients ++ enclave.ring.forwarding.keys

variable (suite : Suite)

def encrypt (enclave : Enclave) (message : Bytes) (sender : PublicKey)
    (recipients : List PublicKey) : Sampler EnclaveError Payload := do
  enclave.requireRunning
  requireRecipients recipients
  let key ← enclave.ring.privateKey sender
  (Payload.encrypt suite message key (enclave.withForwarding recipients)).mapError .crypto

def encryptDraft (enclave : Enclave) (message : Bytes) (sender : PublicKey) :
    Sampler EnclaveError Draft := do
  enclave.requireRunning
  let key ← enclave.ring.privateKey sender
  (Draft.encrypt suite message key).mapError .crypto

/-- The payload of a draft, whose sender must be a held key, for recipients and
all forwarding keys. -/
def addressDraft (enclave : Enclave) (draft : Draft) (recipients : List PublicKey) :
    Sampler EnclaveError Payload := do
  enclave.requireRunning
  requireRecipients recipients
  let key ← enclave.ring.privateKey draft.sender
  (draft.address suite key (enclave.withForwarding recipients)).mapError .crypto

def decrypt (enclave : Enclave) (payload : Payload) (key : PublicKey) :
    Except EnclaveError Bytes := do
  enclave.requireRunning
  let key ← enclave.ring.privateKey key
  (payload.decrypt suite key).mapError .crypto

/-- The held key that boxes are made with: the sender's, else the first one
that a box is addressed to or sealed by, box by box. -/
def opener? (enclave : Enclave) (payload : Payload) : Option PublicKey :=
  if enclave.ring.contains payload.sender then some payload.sender
  else
    (payload.boxes.entries.flatMap fun (addressee, box) => [addressee, box.sealedBy]).find?
      enclave.ring.contains

def newBox (enclave : Enclave) (payload : Payload) (recipient : PublicKey) :
    Sampler EnclaveError KeyBox := do
  enclave.requireRunning
  match enclave.opener? payload with
  | none => Sampler.fail (.crypto .decryption)
  | some opener =>
    let key ← enclave.ring.privateKey opener
    (payload.newBox suite key recipient).mapError .crypto

namespace Status

def names : List (String × Status) :=
  [("STARTED", .started), ("STOPPED", .stopped)]

def name : Status → String
  | .started => "STARTED"
  | .stopped => "STOPPED"

def decoder : Json.Decoder Status := .choice names

def toJson (status : Status) : Json.Value := .text status.name

end Status

end Enclave

end Envelope
