import Envelope.Enclave
import Envelope.Proofs.FanOut

/-!
# Sealing in two steps

A draft carries the payload key sealed by its sender for itself. Addressing the
draft opens that box again, so the two steps agree with sealing for the
recipients at once: the same payload or error, and the same bytes left, also
where the bytes run out in either step. Only the ledgers differ, since a draft
seals one more box, under the nonce of its body.
-/

namespace Envelope

namespace Draft

variable {suite : Suite} {sender : PrivateKey} {message : Bytes} {recipients : List PublicKey}
  {stream : Bytes} {draft : Draft}

/-- What a draft consists of. -/
theorem encrypt_cases (h : (encrypt suite message sender stream).result = .ok draft) :
    ∃ key nonce, draft =
      { body := suite.sealBody key nonce message
        sealedKey := suite.sealBox (suite.sharedKey (suite.publicKey sender) sender) nonce
          key.octets.toBytes
        nonce
        sender := suite.publicKey sender } := by
  unfold encrypt at h
  obtain ⟨key, -, h⟩ := Sampler.result_bind_eq_ok_iff.1 h
  obtain ⟨nonce, -, h⟩ := Sampler.result_bind_eq_ok_iff.1 h
  obtain ⟨body, hbody, h⟩ := Sampler.result_bind_eq_ok_iff.1 h
  obtain ⟨sealedKey, hsealed, h⟩ := Sampler.result_bind_eq_ok_iff.1 h
  cases hbody
  cases hsealed
  cases h
  exact ⟨key, nonce, rfl⟩

theorem sender_of_encrypt (h : (encrypt suite message sender stream).result = .ok draft) :
    draft.sender = suite.publicKey sender := by
  obtain ⟨key, nonce, rfl⟩ := encrypt_cases h
  rfl

theorem address_of_openKey? {key : SymmetricKey}
    (hcheck : Payload.checkRecipients recipients = .ok ())
    (hkey : Payload.openKey? suite sender draft.sender draft.nonce draft.sealedKey = some key) :
    draft.address suite sender recipients =
      Payload.sealKeys suite key sender (.unaddressed draft.sender draft.nonce draft.body)
        recipients := by
  rw [address, hcheck, hkey]
  rfl

/-- A payload comes of a draft only by a key that the draft opens to. -/
theorem address_cases {payload : Payload}
    (h : (draft.address suite sender recipients stream).result = .ok payload) :
    recipients ≠ [] ∧ ∃ key,
      Payload.openKey? suite sender draft.sender draft.nonce draft.sealedKey = some key ∧
      (Payload.sealKeys suite key sender
        (.unaddressed draft.sender draft.nonce draft.body) recipients stream).result =
          .ok payload := by
  unfold address at h
  obtain ⟨⟨⟩, hcheck, h⟩ := Sampler.result_bind_eq_ok_iff.1 h
  refine ⟨(Payload.checkRecipients_eq_ok_iff.1 hcheck).1, ?_⟩
  cases hkey : Payload.openKey? suite sender draft.sender draft.nonce draft.sealedKey with
  | none =>
    rw [hkey] at h
    cases h
  | some key =>
    rw [hkey] at h
    exact ⟨key, rfl, h⟩

theorem agree_encrypt_address (hsuite : suite.OpensBoxes)
    (hcheck : Payload.checkRecipients recipients = .ok ()) :
    Sampler.Agree
      (encrypt suite message sender >>= fun draft => draft.address suite sender recipients)
      (Payload.encrypt suite message sender recipients) := by
  rw [Payload.encrypt_eq hcheck]
  simp only [encrypt, bind_assoc, pure_bind]
  apply Sampler.Agree.bind
  intro key
  apply Sampler.Agree.bind
  intro nonce
  apply Sampler.Agree.bind
  intro body
  apply Sampler.Agree.trans (Sampler.agree_sealBox suite _ nonce _ _)
  rw [address_of_openKey? hcheck (Payload.openKey?_sealBox hsuite rfl)]
  exact Sampler.Agree.refl _

end Draft

namespace KeyRing

theorem mem_of_privateKey {ring : KeyRing} {name : PublicKey} {key : PrivateKey}
    (h : ring.privateKey name = .ok key) : ⟨name, key⟩ ∈ ring.pairs := by
  unfold privateKey at h
  cases hfind : ring.pairs.find? (·.publicKey = name) with
  | none => simp [hfind] at h
  | some pair =>
    have hname : pair.publicKey = name := by simpa using List.find?_some hfind
    simp only [hfind, Except.ok.injEq] at h
    have hpair : pair = ⟨name, key⟩ := KeyPair.ext hname h
    exact hpair ▸ List.mem_of_find?_eq_some hfind

end KeyRing

namespace Enclave

variable {suite : Suite} {enclave : Enclave} {message : Bytes} {recipients : List PublicKey}
  {sender : PublicKey}

theorem encrypt_of_privateKey {key : PrivateKey} (hrunning : enclave.running = true)
    (hne : recipients ≠ []) (hkey : enclave.ring.privateKey sender = .ok key) :
    enclave.encrypt suite message sender recipients =
      (Payload.encrypt suite message key (enclave.withForwarding recipients)).mapError .crypto := by
  simp [encrypt, requireRunning, requireRecipients, hrunning, hne, hkey]

theorem encryptDraft_of_privateKey {key : PrivateKey} (hrunning : enclave.running = true)
    (hkey : enclave.ring.privateKey sender = .ok key) :
    enclave.encryptDraft suite message sender =
      (Draft.encrypt suite message key).mapError .crypto := by
  simp [encryptDraft, requireRunning, hrunning, hkey]

theorem addressDraft_of_privateKey {draft : Draft} {key : PrivateKey}
    (hrunning : enclave.running = true) (hne : recipients ≠ [])
    (hkey : enclave.ring.privateKey draft.sender = .ok key) :
    enclave.addressDraft suite draft recipients =
      (draft.address suite key (enclave.withForwarding recipients)).mapError .crypto := by
  simp [addressDraft, requireRunning, requireRecipients, hrunning, hne, hkey]

theorem encryptDraft_eq_fail (suite : Suite) (message : Bytes) {e : EnclaveError}
    (hrunning : enclave.running = true) (hne : recipients ≠ [])
    (hkey : enclave.ring.privateKey sender = .error e) :
    enclave.encryptDraft suite message sender = Sampler.fail e ∧
      enclave.encrypt suite message sender recipients = Sampler.fail e := by
  simp [encryptDraft, encrypt, requireRunning, requireRecipients, hrunning, hne, hkey]

theorem agree_encryptDraft_addressDraft (hsuite : suite.OpensBoxes)
    (hpaired : enclave.ring.Paired suite) (hne : recipients ≠ [])
    (hcheck : Payload.checkRecipients (enclave.withForwarding recipients) = .ok ()) :
    Sampler.Agree
      (enclave.encryptDraft suite message sender >>= fun draft =>
        enclave.addressDraft suite draft recipients)
      (enclave.encrypt suite message sender recipients) := by
  cases hrunning : enclave.running with
  | false =>
    simp only [encryptDraft, encrypt, requireRunning, hrunning]
    exact Sampler.Agree.refl _
  | true =>
    cases hkey : enclave.ring.privateKey sender with
    | error e =>
      obtain ⟨hdraft, hencrypt⟩ := encryptDraft_eq_fail suite message hrunning hne hkey
      rw [hdraft, hencrypt]
      exact Sampler.Agree.refl _
    | ok key =>
      have hsender : sender = suite.publicKey key := hpaired _ (KeyRing.mem_of_privateKey hkey)
      have hsteps : (enclave.encryptDraft suite message sender >>= fun draft =>
            enclave.addressDraft suite draft recipients) =
          (Draft.encrypt suite message key >>= fun draft =>
            draft.address suite key (enclave.withForwarding recipients)).mapError .crypto := by
        rw [encryptDraft_of_privateKey hrunning hkey, Sampler.mapError_bind]
        funext stream
        -- The draft names the sender that the enclave was asked for.
        refine Sampler.bind_congr_of_ok fun draft hdraft => ?_
        have hdraft := Draft.sender_of_encrypt (Sampler.result_mapError_eq_ok_iff.1 hdraft)
        rw [← hsender] at hdraft
        rw [addressDraft_of_privateKey hrunning hne (hdraft ▸ hkey)]
      rw [hsteps, encrypt_of_privateKey hrunning hne hkey]
      exact (Draft.agree_encrypt_address hsuite hcheck).mapError _

/-- Drafting a message and addressing the draft agrees with sealing the message
for its recipients, for the holder of a private key as well as within an
enclave. -/
theorem draft_then_address (hsuite : suite.OpensBoxes) (message : Bytes)
    {recipients : List PublicKey} (hne : recipients ≠ []) (hzero : .zero ∉ recipients) :
    (∀ sender, Sampler.Agree
      (Draft.encrypt suite message sender >>= fun draft => draft.address suite sender recipients)
      (Payload.encrypt suite message sender recipients)) ∧
    ∀ enclave : Enclave, enclave.ring.Paired suite → .zero ∉ enclave.ring.forwarding.keys →
      ∀ sender, Sampler.Agree
        (enclave.encryptDraft suite message sender >>= fun draft =>
          enclave.addressDraft suite draft recipients)
        (enclave.encrypt suite message sender recipients) := by
  constructor
  · intro sender
    exact Draft.agree_encrypt_address hsuite (Payload.checkRecipients_eq_ok_iff.2 ⟨hne, hzero⟩)
  · intro enclave hpaired hforwarding sender
    apply agree_encryptDraft_addressDraft hsuite hpaired hne
    rw [Payload.checkRecipients_eq_ok_iff, withForwarding]
    constructor
    · simp [hne]
    · simp [hzero, hforwarding]

/-- An enclave of one party, which forwards to a point. -/
def solo : Enclave :=
  start
    { pairs := [Suite.standard.keyPair (party 1)]
      forwarding := .ofKeys [point 9]
      pairs_ne_nil := List.cons_ne_nil _ _
      nodup := by simp }

theorem draft_then_address_solo :
    Suite.standard.OpensBoxes ∧ [point 2] ≠ [] ∧ .zero ∉ [point 2] ∧
      solo.ring.Paired .standard ∧ .zero ∉ solo.ring.forwarding.keys ∧
      (solo.encrypt .standard [104, 105] solo.ring.default [point 2]
        (List.replicate 104 7)).result.toOption.isSome = true ∧
      Sampler.Agree
        (Draft.encrypt .standard [104, 105] (party 1) >>= fun draft =>
          draft.address .standard (party 1) [point 2])
        (Payload.encrypt .standard [104, 105] (party 1) [point 2]) ∧
      Sampler.Agree
        (solo.encryptDraft .standard [104, 105] solo.ring.default >>= fun draft =>
          solo.addressDraft .standard draft [point 2])
        (solo.encrypt .standard [104, 105] solo.ring.default [point 2]) := by
  have hne : [point 2] ≠ [] := by decide
  have hzero : .zero ∉ [point 2] := by decide
  have hpaired : solo.ring.Paired .standard := by
    intro pair hmem
    rw [List.mem_singleton.1 hmem]
    rfl
  have hforwarding : .zero ∉ solo.ring.forwarding.keys := by decide +kernel
  obtain ⟨hpayload, henclave⟩ :=
    draft_then_address Suite.opensBoxes_standard [104, 105] hne hzero
  exact ⟨Suite.opensBoxes_standard, hne, hzero, hpaired, hforwarding, by decide +kernel,
    hpayload (party 1), henclave solo hpaired hforwarding _⟩

end Enclave

end Envelope
