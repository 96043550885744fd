import Envelope.Json.Decode
import Envelope.Json.Value
import Envelope.Key

/-!
# Keys, nonces, salts and byte strings in JSON

All of them are written as base64 texts.
-/

namespace Envelope

/-- Reads a text and then the value that it stands for. -/
def Json.Decoder.ofText {α : Type} (parse : String → Except Json.Fault α) : Json.Decoder α :=
  fun reading => Json.Decoder.text reading >>= parse

namespace PublicKey

def faultMessage (fault : Base64.SizedFault) : String :=
  "malformed public key: " ++ fault.message

def ofText (text : String) : Except Json.Fault PublicKey :=
  (ofBase64 text).mapError fun fault => .refused (faultMessage fault)

def decoder : Json.Decoder PublicKey := .ofText ofText

def toJson (key : PublicKey) : Json.Value := .text key.toBase64

end PublicKey

namespace Nonce

def decoder : Json.Decoder Nonce :=
  .ofText fun text => (ofBase64 text).mapError fun fault =>
    .refused ("malformed nonce: " ++ fault.message)

def toJson (nonce : Nonce) : Json.Value := .text nonce.toBase64

end Nonce

namespace Salt

def decoder : Json.Decoder Salt :=
  .ofText fun text => (ofBase64 text).mapError fun fault =>
    .refused ("malformed salt: " ++ fault.message)

def toJson (salt : Salt) : Json.Value := .text salt.toBase64

end Salt

namespace Bytes

def decoder : Json.Decoder Bytes :=
  .ofText fun text => (Base64.decode text).mapError fun fault => .refused fault.message

def toJson (bs : Bytes) : Json.Value := .text (Base64.encode bs)

end Bytes

end Envelope
