import Envelope.Proofs.Circle
import Envelope.Proofs.Routes
import Envelope.Proofs.Sampling

/-!
# Adding one recipient

Nothing is asked of the payload: its boxes may hold different keys, hold none,
or name a wrong sealer. `extend_cases` says once what extending can do, and
everything else follows from it. The party that extends may find its own new
box from then on, but that box holds the very key that it recovered before.
-/

namespace Envelope.Payload

variable {suite : Suite} {key : SymmetricKey} {sealer own reader : PrivateKey}
  {recipient : PublicKey} {box : KeyBox} {payload : Payload} {stream : Bytes}

theorem checkRecipients_eq_ok_iff {recipients : List PublicKey} :
    checkRecipients recipients = .ok () ↔ recipients ≠ [] ∧ .zero ∉ recipients := by
  unfold checkRecipients
  split
  · rename_i hempty
    simp [List.isEmpty_iff.1 hempty]
  · rename_i hempty
    have hne : recipients ≠ [] := fun h => hempty (List.isEmpty_iff.2 h)
    simp [hne]

theorem sealKey_holds (h : (sealKey suite key sealer recipient stream).result = .ok box) :
    box.Holds suite key sealer recipient := by
  unfold sealKey at h
  obtain ⟨nonce, -, h⟩ := Sampler.result_bind_eq_ok_iff.1 h
  obtain ⟨sealedKey, hsealed, h⟩ := Sampler.result_bind_eq_ok_iff.1 h
  cases hsealed
  cases h
  exact ⟨rfl, rfl⟩

/-- Sealing the payload key takes a nonce. -/
theorem gives_sealKey (suite : Suite) (key : SymmetricKey) (sealer : PrivateKey)
    (recipient : PublicKey) (hstream : 24 ≤ stream.length) :
    ∃ box, (sealKey suite key sealer recipient).Gives stream 24 box := by
  obtain ⟨nonce, hnonce⟩ : ∃ nonce, Sampler.nonce.Gives stream 24 nonce :=
    ⟨_, Sampler.gives_nonce hstream⟩
  have hseal := Sampler.gives_sealBox (ε := Error) suite (suite.sharedKey recipient sealer) nonce
    key.octets.toBytes (stream.drop 24)
  have hbox := hseal.map fun sealedKey => KeyBox.mk (suite.publicKey sealer) nonce sealedKey
  exact ⟨_, (hnonce.bind hbox : Sampler.Gives _ stream (24 + 0) _)⟩

theorem newBox_holds (h : (newBox suite payload own recipient stream).result = .ok box) :
    ∃ key, recoverKey suite payload own = .ok key ∧ box.Holds suite key own recipient := by
  unfold newBox at h
  obtain ⟨-, -, h⟩ := Sampler.result_bind_eq_ok_iff.1 h
  obtain ⟨key, hkey, h⟩ := Sampler.result_bind_eq_ok_iff.1 h
  exact ⟨key, hkey, sealKey_holds h⟩

/-- What extending a payload can do. -/
theorem extend_cases (suite : Suite) (payload : Payload) (own : PrivateKey)
    (recipient : PublicKey) (stream : Bytes) :
    (payload.boxes.contains recipient = true ∧
      extend suite payload own recipient stream = (payload, ⟨.ok (), stream, []⟩)) ∨
    (payload.boxes.contains recipient = false ∧
      ∃ error, (extend suite payload own recipient stream).1 = payload ∧
        (extend suite payload own recipient stream).2.result = .error error) ∨
    (payload.boxes.contains recipient = false ∧
      ∃ box key, recoverKey suite payload own = .ok key ∧ box.Holds suite key own recipient ∧
        (extend suite payload own recipient stream).1 = (payload.addBox recipient box).1 ∧
        (extend suite payload own recipient stream).2.result = .ok ()) := by
  cases hmem : payload.boxes.contains recipient with
  | true => exact .inl ⟨rfl, by simp [extend, hmem]⟩
  | false =>
    cases hmade : (newBox suite payload own recipient stream).result with
    | error error => exact .inr (.inl ⟨rfl, error, by simp [extend, hmem, hmade]⟩)
    | ok box =>
      obtain ⟨key, hkey, hbox⟩ := newBox_holds hmade
      exact .inr (.inr ⟨rfl, box, key, hkey, hbox, by simp [extend, hmem, hmade]⟩)

theorem addRecipient_cases {extended : Payload}
    (h : (addRecipient suite payload own recipient stream).result = .ok extended) :
    (payload.boxes.contains recipient = true ∧ extended = payload) ∨
    (payload.boxes.contains recipient = false ∧
      ∃ box key, recoverKey suite payload own = .ok key ∧ box.Holds suite key own recipient ∧
        extended = (payload.addBox recipient box).1) := by
  change (extend suite payload own recipient stream).2.result.map
    (fun _ => (extend suite payload own recipient stream).1) = .ok extended at h
  rcases extend_cases suite payload own recipient stream with
    ⟨hmem, hextend⟩ | ⟨hmem, error, -, hresult⟩ | ⟨hmem, box, key, hkey, hbox, hpayload, hresult⟩
  · rw [hextend] at h
    cases h
    exact .inl ⟨hmem, rfl⟩
  · rw [hresult] at h
    cases h
  · rw [hresult, hpayload] at h
    cases h
    exact .inr ⟨hmem, box, key, hkey, hbox, rfl⟩

/-! ## What others read -/

theorem decrypt_congr {before after : Payload} {k k' : PrivateKey}
    (hnonce : after.nonce = before.nonce) (hbody : after.body = before.body)
    (hkey : recoverKey suite after k = recoverKey suite before k') :
    decrypt suite after k = decrypt suite before k' := by
  have hopen : openBody suite after = openBody suite before := by
    funext opened
    simp only [openBody, hnonce, hbody]
  rw [decrypt, decrypt, hkey, hopen]

/-- Who is neither the recipient nor, by its public key, the sealer of a new box
goes the same way as before. -/
theorem route?_addBox_of_ne {self : PublicKey} (hmem : payload.boxes.contains recipient = false)
    (hself : self ≠ recipient) (hsealed : box.sealedBy ≠ self) :
    (payload.addBox recipient box).1.route? self = payload.route? self := by
  have hentries : (payload.boxes.insert recipient box).entries.find?
      (fun entry => entry.2.sealedBy = self) =
        payload.boxes.entries.find? fun entry => entry.2.sealedBy = self :=
    KeyMap.find?_entries_insert_of_neg hmem (by simpa using hsealed)
  rw [addBox_of_not_contains hmem]
  simp only [route?, KeyMap.find?_insert, if_neg (Ne.symm hself), hentries]

/-- The sealer of a new box goes the same way as before or opens that box. -/
theorem route?_addBox {self : PublicKey} (box : KeyBox)
    (hmem : payload.boxes.contains recipient = false) (hself : self ≠ recipient) :
    (payload.addBox recipient box).1.route? self = payload.route? self ∨
      (payload.addBox recipient box).1.route? self = some (recipient, box) := by
  rw [addBox_of_not_contains hmem]
  simp only [route?, KeyMap.find?_insert, if_neg (Ne.symm hself)]
  cases payload.boxes.find? self with
  | some found => exact .inl rfl
  | none => exact (KeyMap.find?_entries_insert box _ hmem).symm

theorem recoverKey_addBox_of_ne (hmem : payload.boxes.contains recipient = false)
    (hreader : suite.publicKey reader ≠ recipient)
    (hsealed : box.sealedBy ≠ suite.publicKey reader) :
    recoverKey suite (payload.addBox recipient box).1 reader = recoverKey suite payload reader := by
  rw [recoverKey, recoverKey, route?_addBox_of_ne hmem hreader hsealed]

theorem recoverKey_addBox_sealer (hsuite : suite.OpensBoxes)
    (hmem : payload.boxes.contains recipient = false) (hown : suite.publicKey own ≠ recipient)
    (hkey : recoverKey suite payload own = .ok key) (hbox : box.Holds suite key own recipient) :
    recoverKey suite (payload.addBox recipient box).1 own = .ok key := by
  rcases route?_addBox box hmem hown with hroute | hroute
  · rw [← hkey, recoverKey, recoverKey, hroute]
  · apply recoverKey_eq_ok_iff.2
    exact ⟨recipient, box, hroute, hbox.openKey?_of_sharedKey_eq hsuite rfl⟩

theorem recoverKey_addBox_recipient (hsuite : suite.OpensBoxes) (hshares : suite.SharesKeys)
    (hmem : payload.boxes.contains recipient = false) (hreader : suite.publicKey reader = recipient)
    (hbox : box.Holds suite key own recipient) :
    recoverKey suite (payload.addBox recipient box).1 reader = .ok key := by
  have hfind : (payload.addBox recipient box).1.boxes.find? (suite.publicKey reader) =
      some box := by
    rw [addBox_of_not_contains hmem, hreader]
    simp [KeyMap.find?_insert]
  apply recoverKey_eq_ok_iff.2
  exact ⟨box.sealedBy, box, route?_of_find? hfind,
    hbox.openKey?_recipient hsuite hshares hreader⟩

/-! ## The effect of extending -/

/-- One recipient more and one box more; all else is as before. -/
structure Extended (before after : Payload) (recipient sealer : PublicKey) : Prop where
  sender_eq : after.sender = before.sender
  nonce_eq : after.nonce = before.nonce
  body_eq : after.body = before.body
  recipients_eq : after.recipients = before.recipients ++ [recipient]
  boxes_eq : ∃ box : KeyBox, box.sealedBy = sealer ∧ ∀ other,
    after.boxes.find? other = if recipient = other then some box else before.boxes.find? other

theorem extended_addBox (hmem : payload.boxes.contains recipient = false) :
    Extended payload (payload.addBox recipient box).1 recipient box.sealedBy := by
  rw [addBox_of_not_contains hmem]
  exact ⟨rfl, rfl, rfl, rfl, box, rfl, fun other => KeyMap.find?_insert _ _ _ _⟩

/-- Extending a payload, whatever it holds, changes nothing when it fails and
nothing for a recipient who has a box. Otherwise it adds one box; the recipient
then reads what the extending party reads, which still reads what it did, as does
everybody whose public key is neither the recipient's nor the sealer's. -/
theorem extend_effect (hsuite : suite.OpensBoxes) (hshares : suite.SharesKeys) (payload : Payload)
    (own : PrivateKey) (recipient : PublicKey) (stream : Bytes) :
    let extended := (extend suite payload own recipient stream).1
    let outcome := (extend suite payload own recipient stream).2
    (∀ error, outcome.result = .error error → extended = payload) ∧
    (payload.boxes.contains recipient = true →
      outcome.result = .ok () ∧ extended = payload ∧ outcome.left = stream) ∧
    (outcome.result = .ok () → payload.boxes.contains recipient = false →
      Extended payload extended recipient (suite.publicKey own) ∧
      (∀ reader, suite.publicKey reader ≠ recipient →
        (reader = own ∨ suite.publicKey reader ≠ suite.publicKey own) →
        decrypt suite extended reader = decrypt suite payload reader) ∧
      (∀ reader, suite.publicKey reader = recipient →
        decrypt suite extended reader = decrypt suite payload own)) := by
  intro extended outcome
  rcases extend_cases suite payload own recipient stream with
    ⟨hmem, hextend⟩ | ⟨hmem, error, hpayload, hresult⟩ |
      ⟨hmem, box, key, hkey, hbox, hpayload, hresult⟩
  · have hsame : extended = payload := congrArg Prod.fst hextend
    have hresult : outcome.result = .ok () := congrArg (fun e => e.2.result) hextend
    have hleft : outcome.left = stream := congrArg (fun e => e.2.left) hextend
    refine ⟨fun _ _ => hsame, fun _ => ⟨hresult, hsame, hleft⟩, ?_⟩
    intro _ hnew
    simp [hmem] at hnew
  · change extended = payload at hpayload
    change outcome.result = .error error at hresult
    refine ⟨fun _ _ => hpayload, ?_, ?_⟩
    · intro hold
      simp [hmem] at hold
    · intro hok
      rw [hresult] at hok
      cases hok
  · change extended = (payload.addBox recipient box).1 at hpayload
    change outcome.result = .ok () at hresult
    refine ⟨?_, ?_, ?_⟩
    · intro error herror
      rw [hresult] at herror
      cases herror
    · intro hold
      simp [hmem] at hold
    · intro _ _
      rw [hpayload]
      have hext : Extended payload (payload.addBox recipient box).1 recipient
          (suite.publicKey own) := hbox.sealedBy_eq ▸ extended_addBox hmem
      refine ⟨hext, ?_, ?_⟩
      · intro reader hreader hother
        apply decrypt_congr hext.nonce_eq hext.body_eq
        rcases hother with rfl | hother
        · rw [recoverKey_addBox_sealer hsuite hmem hreader hkey hbox, hkey]
        · exact recoverKey_addBox_of_ne hmem hreader (hbox.sealedBy_eq ▸ Ne.symm hother)
      · intro reader hreader
        apply decrypt_congr hext.nonce_eq hext.body_eq
        rw [recoverKey_addBox_recipient hsuite hshares hmem hreader hbox, hkey]

/-- The reader of the letter extends it for the third party. -/
theorem extend_effect_letter :
    let extended := (extend .quartet letter (party 2) (partyKey 3) (List.replicate 24 8)).1
    (encrypt .standard [104, 105] (party 1) [Suite.standard.publicKey (party 2)]
        (List.replicate 80 7)).result = .ok letter ∧
      Suite.quartet.OpensBoxes ∧ Suite.quartet.SharesKeys ∧
      Extended letter extended (partyKey 3) (partyKey 2) ∧
      decrypt .quartet extended (party 1) = decrypt .quartet letter (party 1) ∧
      decrypt .quartet extended (party 2) = decrypt .quartet letter (party 2) ∧
      decrypt .quartet extended (party 3) = decrypt .quartet letter (party 2) := by
  intro extended
  have hsuite : Suite.quartet.OpensBoxes := Suite.opensBoxes_circle
  have hshares : Suite.quartet.SharesKeys := Suite.sharesKeys_circle
  have hmade : (extend .quartet letter (party 2) (partyKey 3)
      (List.replicate 24 8)).2.result = .ok () := by decide +kernel
  have hnew : letter.boxes.contains (partyKey 3) = false := by decide +kernel
  obtain ⟨hextended, hothers, hrecipient⟩ :=
    (extend_effect hsuite hshares letter (party 2) (partyKey 3)
      (List.replicate 24 8)).2.2 hmade hnew
  refine ⟨encrypt_letter_standard, hsuite, hshares, hextended, ?_, ?_, hrecipient (party 3) rfl⟩
  · exact hothers (party 1) (by decide +kernel) (.inr (by decide +kernel))
  · exact hothers (party 2) (by decide +kernel) (.inl rfl)

end Envelope.Payload
