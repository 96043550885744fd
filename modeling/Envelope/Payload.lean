import Envelope.KeyMap
import Envelope.Sampler

/-!
# Payloads

A message is sealed once, under a payload key drawn for it, and the payload
key is sealed in one box for every recipient. Whoever can open a box can seal
the payload key for a further recipient without touching the message.
-/

namespace Envelope

/-- The payload key, sealed for one recipient. -/
@[ext] structure KeyBox where
  /-- The party that sealed the box: the sender, or a recipient who extended
  the payload. -/
  sealedBy : PublicKey
  nonce : Nonce
  sealedKey : Bytes
deriving DecidableEq

/-- A sealed message with a box for every recipient. Nothing forces the list
and the boxes to name the same recipients. -/
@[ext] structure Payload where
  sender : PublicKey
  nonce : Nonce
  body : Bytes
  boxes : KeyMap KeyBox
  /-- The recipients in the order in which they were added. -/
  recipients : List PublicKey
deriving DecidableEq

/-- A message sealed for its sender alone. The nonce serves twice: for the body
under the payload key, and for the payload key under the key that the sender
shares with itself. -/
@[ext] structure Draft where
  body : Bytes
  sealedKey : Bytes
  nonce : Nonce
  sender : PublicKey
deriving DecidableEq

namespace Payload

variable (suite : Suite)

/-- Refuses an empty list of recipients and the zero key. -/
def checkRecipients (recipients : List PublicKey) : Except Error Unit :=
  if recipients.isEmpty then .error (.recipient .noRecipient)
  else if recipients.any (· = .zero) then .error (.recipient .zeroKey)
  else .ok ()

/-- A sealed message that nobody has a box for yet. -/
def unaddressed (sender : PublicKey) (nonce : Nonce) (body : Bytes) : Payload :=
  { sender, nonce, body, boxes := .empty, recipients := [] }

/-- Adds a box, unless the recipient has one. Also tells whether it was added. -/
def addBox (payload : Payload) (recipient : PublicKey) (box : KeyBox) : Payload × Bool :=
  if payload.boxes.contains recipient then (payload, false)
  else
    ({ payload with
        boxes := payload.boxes.insert recipient box
        recipients := payload.recipients ++ [recipient] }, true)

/-! ## Sealing -/

/-- Seals the payload key for a recipient. -/
def sealKey (key : SymmetricKey) (sealer : PrivateKey) (recipient : PublicKey) :
    Sampler Error KeyBox := do
  let nonce ← Sampler.nonce
  let sealedKey ← Sampler.sealBox suite (suite.sharedKey recipient sealer) nonce key.octets.toBytes
  return { sealedBy := suite.publicKey sealer, nonce, sealedKey }

/-- Seals the payload key for every recipient in turn who has no box yet. -/
def sealKeys (key : SymmetricKey) (sealer : PrivateKey) :
    (payload : Payload) → List PublicKey → Sampler Error Payload
  | payload, [] => return payload
  | payload, recipient :: rest =>
    if payload.boxes.contains recipient then sealKeys key sealer payload rest
    else do
      let box ← sealKey suite key sealer recipient
      sealKeys key sealer (payload.addBox recipient box).1 rest

def encrypt (message : Bytes) (sender : PrivateKey) (recipients : List PublicKey) :
    Sampler Error Payload := do
  checkRecipients recipients
  let key ← Sampler.payloadKey
  let nonce ← Sampler.nonce
  let body ← Sampler.sealBody suite key nonce message
  sealKeys suite key sender (.unaddressed (suite.publicKey sender) nonce body) recipients

/-! ## Opening -/

/-- The box that a party opens, and the party at its other end: the box
addressed to it, else the first one that it sealed itself. -/
def route? (payload : Payload) (own : PublicKey) : Option (PublicKey × KeyBox) :=
  match payload.boxes.find? own with
  | some box => some (box.sealedBy, box)
  | none => payload.boxes.entries.find? fun entry => entry.2.sealedBy = own

/-- The payload key in a box between a party and another one. -/
def openKey? (own : PrivateKey) (other : PublicKey) (nonce : Nonce) (sealedKey : Bytes) :
    Option SymmetricKey :=
  suite.openBox (suite.sharedKey other own) nonce sealedKey >>= SymmetricKey.ofOpened?

/-- The payload key, for a party that has a box addressed to it or sealed one. -/
def recoverKey (payload : Payload) (own : PrivateKey) : Except Error SymmetricKey :=
  match payload.route? (suite.publicKey own) with
  | some (other, box) =>
    match openKey? suite own other box.nonce box.sealedKey with
    | some key => .ok key
    | none => .error .decryption
  | none => .error .decryption

def openBody (payload : Payload) (key : SymmetricKey) : Except Error Bytes :=
  match suite.openBody key payload.nonce payload.body with
  | some message => .ok message
  | none => .error .decryption

def decrypt (payload : Payload) (own : PrivateKey) : Except Error Bytes := do
  let key ← recoverKey suite payload own
  openBody suite payload key

/-! ## Adding recipients -/

/-- A box for a new recipient, sealed by a party that can recover the payload
key. -/
def newBox (payload : Payload) (own : PrivateKey) (recipient : PublicKey) :
    Sampler Error KeyBox := do
  checkRecipients [recipient]
  let key ← recoverKey suite payload own
  sealKey suite key own recipient

/-- Adds a recipient to a payload in place: the payload afterwards, and the
outcome. Who has a box keeps it. -/
def extend (payload : Payload) (own : PrivateKey) (recipient : PublicKey) (stream : Bytes) :
    Payload × Outcome Error Unit :=
  if payload.boxes.contains recipient then (payload, ⟨.ok (), stream, []⟩)
  else
    let made := newBox suite payload own recipient stream
    match made.result with
    | .ok box => ((payload.addBox recipient box).1, ⟨.ok (), made.left, made.ledger⟩)
    | .error error => (payload, ⟨.error error, made.left, made.ledger⟩)

def addRecipient (payload : Payload) (own : PrivateKey) (recipient : PublicKey) :
    Sampler Error Payload := fun stream =>
  let (extended, outcome) := extend suite payload own recipient stream
  ⟨outcome.result.map fun _ => extended, outcome.left, outcome.ledger⟩

end Payload

namespace Draft

variable (suite : Suite)

def encrypt (message : Bytes) (sender : PrivateKey) : Sampler Error Draft := do
  let key ← Sampler.payloadKey
  let nonce ← Sampler.nonce
  let body ← Sampler.sealBody suite key nonce message
  let own := suite.publicKey sender
  let sealedKey ← Sampler.sealBox suite (suite.sharedKey own sender) nonce key.octets.toBytes
  return { body, sealedKey, nonce, sender := own }

/-- The payload of a draft for recipients, sealed by its sender. The body is
taken over as it is. -/
def address (draft : Draft) (sender : PrivateKey) (recipients : List PublicKey) :
    Sampler Error Payload := do
  Payload.checkRecipients recipients
  match Payload.openKey? suite sender draft.sender draft.nonce draft.sealedKey with
  | none => Sampler.fail .decryption
  | some key =>
    Payload.sealKeys suite key sender (.unaddressed draft.sender draft.nonce draft.body) recipients

end Draft

end Envelope
