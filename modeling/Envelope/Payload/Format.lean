import Envelope.Payload

/-!
# The transport format of payloads

Payloads, boxes and drafts as JSON. A payload that is decoded names every
recipient who has a box exactly once; without a list it takes the order of the
keys.
-/

namespace Envelope

namespace KeyBox

inductive Field
  | sealedBy
  | nonce
  | sealedKey
deriving DecidableEq, Repr

def layout : Json.Layout Field where
  title := "RecipientBox"
  order := [.sealedBy, .nonce, .sealedKey]
  field
    | .sealedBy => ⟨"sealedBy", PublicKey, PublicKey.decoder, none⟩
    | .nonce => ⟨"nonce", Nonce, Nonce.decoder, none⟩
    | .sealedKey => ⟨"sealedKey", Bytes, Bytes.decoder, none⟩

def decoder : Json.Decoder KeyBox := fun reading => do
  let v ← layout.read reading
  return ⟨v .sealedBy, v .nonce, v .sealedKey⟩

def toJson (box : KeyBox) : Json.Value :=
  .object [
    ("sealedBy", box.sealedBy.toJson),
    ("nonce", box.nonce.toJson),
    ("sealedKey", Bytes.toJson box.sealedKey)]

end KeyBox

namespace Payload

/-- Reads a map of boxes; of several boxes for one recipient the last one
stays. -/
def boxesDecoder : Json.Decoder (KeyMap KeyBox) := fun reading =>
  (Json.Decoder.map PublicKey.ofText KeyBox.decoder reading).map KeyMap.ofList

inductive Field
  | sender
  | nonce
  | body
  | boxes
  | recipients
deriving DecidableEq, Repr

def layout : Json.Layout Field where
  title := "EncodedPayload"
  order := [.sender, .nonce, .body, .boxes, .recipients]
  field
    | .sender => ⟨"senderPublicKey", PublicKey, PublicKey.decoder, none⟩
    | .nonce => ⟨"nonce", Nonce, Nonce.decoder, none⟩
    | .body => ⟨"cipherText", Bytes, Bytes.decoder, none⟩
    | .boxes => ⟨"recipientBoxes", KeyMap KeyBox, boxesDecoder, none⟩
    | .recipients => ⟨"recipientList", List PublicKey, .list PublicKey.decoder, some []⟩

/-- Reads a payload as it is written, whatever its list names. -/
def decoder : Json.Decoder Payload := fun reading => do
  let v ← layout.read reading
  return ⟨v .sender, v .nonce, v .body, v .boxes, v .recipients⟩

def toJson (payload : Payload) : Json.Value :=
  .object [
    ("senderPublicKey", payload.sender.toJson),
    ("nonce", payload.nonce.toJson),
    ("cipherText", Bytes.toJson payload.body),
    ("recipientBoxes", .object (payload.boxes.entries.map fun (recipient, box) =>
      (recipient.toBase64, box.toJson))),
    ("recipientList", .array (payload.recipients.map PublicKey.toJson))]

def encode (payload : Payload) : Bytes :=
  payload.toJson.write .compact

/-- Refuses, at the first place where it happens, a recipient who is listed
again or has no box; `seen` are the recipients before that place. -/
def checkListed (boxes : KeyMap KeyBox) (seen : List PublicKey) :
    List PublicKey → Except Error Unit
  | [] => .ok ()
  | recipient :: rest =>
    if recipient ∈ seen then .error (.recipient (.listedTwice recipient))
    else if boxes.contains recipient then checkListed boxes (recipient :: seen) rest
    else .error (.recipient (.noBox recipient))

/-- The payload with a list that names every recipient who has a box once. -/
def settle (payload : Payload) : Except Error Payload :=
  if payload.recipients.isEmpty then .ok { payload with recipients := payload.boxes.keys }
  else do
    checkListed payload.boxes [] payload.recipients
    match payload.boxes.keys.find? (· ∉ payload.recipients) with
    | some recipient => .error (.recipient (.unlisted recipient))
    | none => return payload

def decode (text : Bytes) : Except Error Payload := do
  let payload ← (Json.decode decoder text).mapError .serialization
  payload.settle

end Payload

namespace Draft

inductive Field
  | body
  | sealedKey
  | nonce
  | sender
deriving DecidableEq, Repr

def layout : Json.Layout Field where
  title := "RawTransaction"
  order := [.body, .sealedKey, .nonce, .sender]
  field
    | .body => ⟨"encryptedPayload", Bytes, Bytes.decoder, none⟩
    | .sealedKey => ⟨"encryptedKey", Bytes, Bytes.decoder, none⟩
    | .nonce => ⟨"nonce", Nonce, Nonce.decoder, none⟩
    | .sender => ⟨"from", PublicKey, PublicKey.decoder, none⟩

def decoder : Json.Decoder Draft := fun reading => do
  let v ← layout.read reading
  return ⟨v .body, v .sealedKey, v .nonce, v .sender⟩

def toJson (draft : Draft) : Json.Value :=
  .object [
    ("encryptedPayload", Bytes.toJson draft.body),
    ("encryptedKey", Bytes.toJson draft.sealedKey),
    ("nonce", draft.nonce.toJson),
    ("from", draft.sender.toJson)]

end Draft

end Envelope
