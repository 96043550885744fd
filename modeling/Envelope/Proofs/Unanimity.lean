import Envelope.Proofs.Delivery

/-!
# What the readers of an addressed draft agree on

Nothing is asked of a draft here: its body may be broken, and the party that addresses
it may be another than the one that it names. Whoever addresses it has opened one key,
and every box holds this key, so all readers read the same or fail alike. What does
not open to a key is refused before any draw.
-/

namespace Envelope

namespace Draft

variable {suite : Suite} {draft : Draft} {key : SymmetricKey} {sender reader : PrivateKey}
  {recipients : List PublicKey} {stream : Bytes} {payload : Payload}

/-- The message of a draft under a key. -/
def read (suite : Suite) (draft : Draft) (key : SymmetricKey) : Except Error Bytes :=
  match suite.openBody key draft.nonce draft.body with
  | some message => .ok message
  | none => .error .decryption

/-- Who has a box and who sealed the boxes open the body of the draft with its key. -/
theorem decrypt_of_sealKeys (hboxes : suite.OpensBoxes) (hshares : suite.SharesKeys)
    (hne : recipients ≠ [])
    (h : (Payload.sealKeys suite key sender
      (.unaddressed draft.sender draft.nonce draft.body) recipients stream).result = .ok payload)
    (hreader : reader = sender ∨ suite.publicKey reader ∈ recipients) :
    payload.decrypt suite reader = draft.read suite key := by
  have hsealed := Payload.sealedBy_of_sealKeys h
  have hcontains := (Payload.contains_of_sealKeys h).2
  have hkey : payload.recoverKey suite reader = .ok key := by
    rcases hreader with rfl | hmem
    · obtain ⟨recipient, hrecipient⟩ := List.exists_mem_of_ne_nil recipients hne
      exact hsealed.recoverKey_sealer hboxes (hcontains recipient hrecipient)
    · exact hsealed.recoverKey_addressee hboxes hshares (hcontains _ hmem)
  obtain ⟨-, hnonce, hbody⟩ := Payload.frame_of_sealKeys h
  rw [Payload.decrypt_of_recoverKey hkey, Payload.openBody, hnonce, hbody]
  rfl

/-- Whatever a draft holds and whoever addresses it, the payload carries it unchanged and
all readers get from it what the draft holds under the key that was opened. A draft
that does not open to 32 bytes is refused, and nothing else but too few random bytes
stops it. -/
theorem address_unanimous (hboxes : suite.OpensBoxes) (hshares : suite.SharesKeys)
    (draft : Draft) (sender : PrivateKey) (recipients : List PublicKey) (stream : Bytes) :
    let opened := suite.openBox (suite.sharedKey draft.sender sender) draft.nonce draft.sealedKey
    let outcome := draft.address suite sender recipients stream
    (∀ payload, outcome.result = .ok payload →
      payload.sender = draft.sender ∧ payload.nonce = draft.nonce ∧ payload.body = draft.body ∧
      ∃ key : SymmetricKey, opened = some key.octets.toBytes ∧
        ∀ reader, reader = sender ∨ suite.publicKey reader ∈ recipients →
          payload.decrypt suite reader = draft.read suite key) ∧
    (recipients ≠ [] → .zero ∉ recipients →
      ((∀ bytes, opened = some bytes → bytes.length ≠ 32) →
        outcome = ⟨.error .decryption, stream, []⟩) ∧
      (∀ bytes, opened = some bytes → bytes.length = 32 →
        24 * recipients.eraseDups.length ≤ stream.length →
          ∃ payload, outcome.result = .ok payload)) := by
  intro opened outcome
  refine ⟨fun payload hpayload => ?_, fun hne hzero => ⟨fun hopened => ?_, ?_⟩⟩
  · obtain ⟨hne, key, hkey, hseals⟩ := address_cases hpayload
    obtain ⟨hsender, hnonce, hbody⟩ := Payload.frame_of_sealKeys hseals
    refine ⟨hsender, hnonce, hbody, key, Payload.openKey?_eq_some_iff.1 hkey, ?_⟩
    intro reader hreader
    exact decrypt_of_sealKeys hboxes hshares hne hseals hreader
  · have hcheck := Payload.checkRecipients_eq_ok_iff.2 ⟨hne, hzero⟩
    simp only [outcome, address, hcheck, Payload.openKey?_eq_none hopened]
    rfl
  · intro bytes hopened hlength hstream
    have hcheck := Payload.checkRecipients_eq_ok_iff.2 ⟨hne, hzero⟩
    have hkey : Payload.openKey? suite sender draft.sender draft.nonce draft.sealedKey =
        some ⟨⟨bytes, hlength⟩⟩ := Payload.openKey?_eq_some_iff.2 hopened
    obtain ⟨payload, hgives⟩ := Payload.gives_sealKeys_unaddressed suite ⟨⟨bytes, hlength⟩⟩ sender
      draft.sender draft.nonce draft.body hstream
    refine ⟨payload, ?_⟩
    rw [show outcome = _ from congrFun (address_of_openKey? hcheck hkey) stream]
    exact hgives.result_eq

/-- A draft that the first party made in the name of the second one. -/
def forged : Draft where
  body := Suite.quartet.sealBody ⟨⟨List.replicate 32 6, rfl⟩⟩ ⟨⟨List.replicate 24 5, rfl⟩⟩
    [104, 105]
  sealedKey := Suite.quartet.sealBox (Suite.quartet.sharedKey (partyKey 2) (party 1))
    ⟨⟨List.replicate 24 5, rfl⟩⟩ (List.replicate 32 6)
  nonce := ⟨⟨List.replicate 24 5, rfl⟩⟩
  sender := partyKey 2

theorem address_unanimous_forged :
    let recipients := [partyKey 3, partyKey 1, partyKey 3]
    Suite.quartet.OpensBoxes ∧ Suite.quartet.SharesKeys ∧ forged.sender ≠ partyKey 1 ∧
      (∃ payload,
        (forged.address .quartet (party 1) recipients (List.replicate 48 7)).result = .ok payload ∧
        payload.sender = partyKey 2 ∧
        payload.decrypt .quartet (party 1) = .ok [104, 105] ∧
        payload.decrypt .quartet (party 3) = .ok [104, 105]) ∧
      forged.address .quartet (party 4) recipients (List.replicate 48 7) =
        ⟨.error .decryption, List.replicate 48 7, []⟩ := by
  intro recipients
  have hboxes : Suite.quartet.OpensBoxes := Suite.opensBoxes_circle
  have hshares : Suite.quartet.SharesKeys := Suite.sharesKeys_circle
  have hne : recipients ≠ [] := List.cons_ne_nil _ _
  have hzero : .zero ∉ recipients := by decide +kernel
  have hopened : Suite.quartet.openBox (Suite.quartet.sharedKey forged.sender (party 1))
      forged.nonce forged.sealedKey = some (List.replicate 32 6) := hboxes _ _ _
  obtain ⟨hreads, hrest⟩ := address_unanimous hboxes hshares forged (party 1) recipients
    (List.replicate 48 7)
  obtain ⟨payload, hpayload⟩ := (hrest hne hzero).2 _ hopened rfl (by decide +kernel)
  obtain ⟨hsender, -, -, key, hkey, hreaders⟩ := hreads payload hpayload
  have hread : forged.read .quartet key = .ok [104, 105] := by
    rw [hopened, Option.some.injEq] at hkey
    obtain rfl : ⟨⟨List.replicate 32 6, rfl⟩⟩ = key := SymmetricKey.ext (Octets.ext hkey)
    decide +kernel
  have hrefused := (address_unanimous hboxes hshares forged (party 4) recipients
    (List.replicate 48 7)).2 hne hzero
  refine ⟨hboxes, hshares, by decide +kernel, ⟨payload, hpayload, hsender, ?_, ?_⟩, ?_⟩
  · exact (hreaders (party 1) (.inl rfl)).trans hread
  · exact (hreaders (party 3) (.inr List.mem_cons_self)).trans hread
  · have hclosed : Suite.quartet.openBox (Suite.quartet.sharedKey forged.sender (party 4))
        forged.nonce forged.sealedKey = none := by decide +kernel
    exact hrefused.1 fun bytes hbytes => by simp [hclosed] at hbytes

end Draft

end Envelope
