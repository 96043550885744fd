import Envelope.Proofs.Extension

/-!
# Sealing for many recipients

Sealing for a list of recipients is one pass that knows the payload key. Adding
the same recipients one at a time recovers the key again before each of them,
from whichever box the sealer then opens. Both come to the same, ledger
included, because every box that the sealer may open is one that it sealed with
the payload key.
-/

namespace Envelope.Payload

variable {suite : Suite} {key : SymmetricKey} {sealer : PrivateKey} {recipient : PublicKey}
  {payload final : Payload} {recipients : List PublicKey} {stream : Bytes}

theorem sealKeys_of_contains (h : payload.boxes.contains recipient = true) :
    sealKeys suite key sealer payload (recipient :: recipients) =
      sealKeys suite key sealer payload recipients := by
  rw [sealKeys, if_pos h]

theorem sealKeys_of_not_contains (h : payload.boxes.contains recipient = false) :
    sealKeys suite key sealer payload (recipient :: recipients) =
      sealKey suite key sealer recipient >>= fun box =>
        sealKeys suite key sealer (payload.addBox recipient box).1 recipients := by
  rw [sealKeys, if_neg (by simp [h])]

theorem sealKeys_append (first second : List PublicKey) (payload : Payload) :
    sealKeys suite key sealer payload (first ++ second) =
      sealKeys suite key sealer payload first >>= fun payload =>
        sealKeys suite key sealer payload second := by
  induction first generalizing payload with
  | nil => rw [List.nil_append, sealKeys, pure_bind]
  | cons recipient rest ih =>
    rw [List.cons_append]
    cases hmem : payload.boxes.contains recipient with
    | true => rw [sealKeys_of_contains hmem, sealKeys_of_contains hmem, ih]
    | false =>
      rw [sealKeys_of_not_contains hmem, sealKeys_of_not_contains hmem, bind_assoc]
      simp only [ih]

/-- What sealing one more box keeps, sealing for a list keeps. -/
theorem sealKeys_induction {P : Payload → Prop}
    (hstep : ∀ payload recipient box, P payload → payload.boxes.contains recipient = false →
      box.Holds suite key sealer recipient → P (payload.addBox recipient box).1)
    (hstart : P payload)
    (h : (sealKeys suite key sealer payload recipients stream).result = .ok final) : P final := by
  induction recipients generalizing payload stream with
  | nil =>
    cases h
    exact hstart
  | cons recipient rest ih =>
    cases hmem : payload.boxes.contains recipient with
    | true =>
      rw [sealKeys_of_contains hmem] at h
      exact ih hstart h
    | false =>
      rw [sealKeys_of_not_contains hmem] at h
      obtain ⟨box, hbox, hrest⟩ := Sampler.result_bind_eq_ok_iff.1 h
      exact ih (hstep payload recipient box hstart hmem (sealKey_holds hbox)) hrest

/-- Boxes join a payload, and nothing else about it changes. -/
theorem frame_of_sealKeys
    (h : (sealKeys suite key sealer payload recipients stream).result = .ok final) :
    final.sender = payload.sender ∧ final.nonce = payload.nonce ∧ final.body = payload.body := by
  refine sealKeys_induction (P := fun final => final.sender = payload.sender ∧
    final.nonce = payload.nonce ∧ final.body = payload.body) ?_ ⟨rfl, rfl, rfl⟩ h
  intro before recipient box hframe hmem _
  rw [addBox_of_not_contains hmem]
  exact hframe

/-- Whoever has a box keeps it, and everybody on the list gets one. -/
theorem contains_of_sealKeys
    (h : (sealKeys suite key sealer payload recipients stream).result = .ok final) :
    (∀ other, payload.boxes.contains other = true → final.boxes.contains other = true) ∧
      ∀ recipient ∈ recipients, final.boxes.contains recipient = true := by
  induction recipients generalizing payload stream with
  | nil =>
    cases h
    exact ⟨fun _ hother => hother, by simp⟩
  | cons recipient rest ih =>
    cases hmem : payload.boxes.contains recipient with
    | true =>
      rw [sealKeys_of_contains hmem] at h
      obtain ⟨hkeep, hrest⟩ := ih h
      refine ⟨hkeep, ?_⟩
      intro other hother
      rcases List.mem_cons.1 hother with rfl | hother
      · exact hkeep _ hmem
      · exact hrest other hother
    | false =>
      rw [sealKeys_of_not_contains hmem] at h
      obtain ⟨box, -, h⟩ := Sampler.result_bind_eq_ok_iff.1 h
      obtain ⟨hkeep, hrest⟩ := ih h
      have hadded : ∀ other, (payload.addBox recipient box).1.boxes.contains other =
          (decide (recipient = other) || payload.boxes.contains other) := by
        intro other
        rw [addBox_of_not_contains hmem]
        exact KeyMap.contains_insert ..
      constructor
      · intro other hother
        exact hkeep other (by simp [hadded, hother])
      · intro other hother
        rcases List.mem_cons.1 hother with rfl | hother
        · exact hkeep _ (by simp [hadded])
        · exact hrest other hother

/-! ## Payloads with a single sealer -/

/-- All boxes hold one payload key as one party sealed it. -/
def SealedBy (suite : Suite) (key : SymmetricKey) (sealer : PrivateKey) (payload : Payload) :
    Prop :=
  ∀ recipient box, payload.boxes.find? recipient = some box → box.Holds suite key sealer recipient

theorem sealedBy_unaddressed (sender : PublicKey) (nonce : Nonce) (body : Bytes) :
    SealedBy suite key sealer (unaddressed sender nonce body) := by
  intro recipient box h
  simp [unaddressed] at h

theorem SealedBy.addBox (h : SealedBy suite key sealer payload) {box : KeyBox}
    (hmem : payload.boxes.contains recipient = false)
    (hbox : box.Holds suite key sealer recipient) :
    SealedBy suite key sealer (payload.addBox recipient box).1 := by
  intro other found hfind
  rw [addBox_of_not_contains hmem, KeyMap.find?_insert] at hfind
  by_cases he : recipient = other
  · rw [if_pos he] at hfind
    cases hfind
    exact he ▸ hbox
  · rw [if_neg he] at hfind
    exact h other found hfind

theorem sealedBy_of_sealKeys {sender : PublicKey} {nonce : Nonce} {body : Bytes}
    (h : (sealKeys suite key sealer (unaddressed sender nonce body) recipients stream).result =
      .ok final) : SealedBy suite key sealer final := by
  apply sealKeys_induction ?_ (sealedBy_unaddressed sender nonce body) h
  intro payload recipient box hsealed hmem hbox
  exact hsealed.addBox hmem hbox

/-- The sealer opens one of its boxes, be it the one addressed to itself. -/
theorem SealedBy.recoverKey_sealer (h : SealedBy suite key sealer payload)
    (hsuite : suite.OpensBoxes) (hsome : payload.boxes.contains recipient = true) :
    recoverKey suite payload sealer = .ok key := by
  rw [recoverKey_eq_ok_iff]
  cases hself : payload.boxes.find? (suite.publicKey sealer) with
  | some box =>
    have hbox := h _ box hself
    refine ⟨box.sealedBy, box, route?_of_find? hself, ?_⟩
    rw [hbox.sealedBy_eq]
    exact hbox.openKey?_of_sharedKey_eq hsuite rfl
  | none =>
    obtain ⟨first, hfirst⟩ := KeyMap.contains_iff_exists.1 hsome
    obtain ⟨⟨other, box⟩, hroute⟩ := route?_isSome hfirst (h _ first hfirst).sealedBy_eq
    have hbox := h other box (route?_spec hself hroute).1
    exact ⟨other, box, hroute, hbox.openKey?_of_sharedKey_eq hsuite rfl⟩

/-- Whoever a box is addressed to recovers the key of the only sealer. -/
theorem SealedBy.recoverKey_addressee (h : SealedBy suite key sealer payload)
    (hsuite : suite.OpensBoxes) (hshares : suite.SharesKeys) {own : PrivateKey}
    (hown : payload.boxes.contains (suite.publicKey own) = true) :
    recoverKey suite payload own = .ok key := by
  obtain ⟨box, hfind⟩ := KeyMap.contains_iff_exists.1 hown
  apply recoverKey_eq_ok_iff.2
  exact ⟨box.sealedBy, box, route?_of_find? hfind,
    (h _ box hfind).openKey?_recipient hsuite hshares rfl⟩

/-! ## One pass and one at a time -/

theorem addRecipient_of_contains {own : PrivateKey}
    (h : payload.boxes.contains recipient = true) :
    addRecipient suite payload own recipient = pure payload := by
  funext stream
  simp [addRecipient, extend, h, Except.map]

theorem addRecipient_of_not_contains {own : PrivateKey}
    (h : payload.boxes.contains recipient = false) :
    addRecipient suite payload own recipient =
      newBox suite payload own recipient >>= fun box => pure (payload.addBox recipient box).1 := by
  funext stream
  simp only [addRecipient, extend, h]
  cases hnew : (newBox suite payload own recipient stream).result with
  | ok box => simp [Sampler.bind_apply_of_ok hnew, Except.map]
  | error e => simp [Sampler.bind_apply_of_error hnew, Except.map]

theorem newBox_of_recoverKey {own : PrivateKey} (hzero : recipient ≠ .zero)
    (hkey : recoverKey suite payload own = .ok key) :
    newBox suite payload own recipient = sealKey suite key own recipient := by
  have hcheck : checkRecipients [recipient] = .ok () :=
    checkRecipients_eq_ok_iff.2 ⟨by simp, by simpa using Ne.symm hzero⟩
  simp [newBox, hcheck, hkey]

theorem addRecipient_of_recoverKey {own : PrivateKey}
    (hmem : payload.boxes.contains recipient = false) (hzero : recipient ≠ .zero)
    (hkey : recoverKey suite payload own = .ok key) :
    addRecipient suite payload own recipient =
      sealKey suite key own recipient >>= fun box => pure (payload.addBox recipient box).1 := by
  rw [addRecipient_of_not_contains hmem, newBox_of_recoverKey hzero hkey]

/-- Adding recipients one at a time is sealing for all of them in one pass. -/
theorem foldlM_addRecipient (hsuite : suite.OpensBoxes)
    (hsealed : SealedBy suite key sealer payload)
    {present : PublicKey} (hsome : payload.boxes.contains present = true)
    (hzero : .zero ∉ recipients) :
    recipients.foldlM (fun payload recipient => addRecipient suite payload sealer recipient)
        payload = sealKeys suite key sealer payload recipients := by
  induction recipients generalizing payload with
  | nil => rfl
  | cons recipient rest ih =>
    obtain ⟨hhead, hrest⟩ : recipient ≠ .zero ∧ .zero ∉ rest := by
      simp only [List.mem_cons, not_or] at hzero
      exact ⟨Ne.symm hzero.1, hzero.2⟩
    rw [List.foldlM_cons]
    cases hmem : payload.boxes.contains recipient with
    | true =>
      rw [addRecipient_of_contains hmem, sealKeys_of_contains hmem, pure_bind]
      exact ih hsealed hsome hrest
    | false =>
      have hkey := hsealed.recoverKey_sealer hsuite hsome
      rw [addRecipient_of_recoverKey hmem hhead hkey, sealKeys_of_not_contains hmem, bind_assoc]
      funext stream
      -- The invariant holds of the boxes that sealing gives, not of every box.
      refine Sampler.bind_congr_of_ok fun box hbox => ?_
      rw [pure_bind, ih (hsealed.addBox hmem (sealKey_holds hbox)) ?_ hrest]
      rw [addBox_of_not_contains hmem, KeyMap.contains_insert, hsome, Bool.or_true]

theorem encrypt_eq {message : Bytes} {sender : PrivateKey}
    (h : checkRecipients recipients = .ok ()) :
    encrypt suite message sender recipients =
      Sampler.payloadKey >>= fun key => Sampler.nonce >>= fun nonce =>
        Sampler.sealBody suite key nonce message >>= fun body =>
          sealKeys suite key sender (.unaddressed (suite.publicKey sender) nonce body)
            recipients := by
  rw [encrypt, h]
  rfl

/-- Sealing a message for two lists of recipients at once is sealing it for the
first and adding those of the second in their order, on every stream of random
bytes. -/
theorem encrypt_append (hsuite : suite.OpensBoxes) (message : Bytes) (sender : PrivateKey)
    {first second : List PublicKey} (hne : first ≠ []) (hfirst : .zero ∉ first)
    (hsecond : .zero ∉ second) :
    encrypt suite message sender (first ++ second) =
      encrypt suite message sender first >>= fun payload =>
        second.foldlM (fun payload recipient => addRecipient suite payload sender recipient)
          payload := by
  have hcheck : checkRecipients first = .ok () := checkRecipients_eq_ok_iff.2 ⟨hne, hfirst⟩
  have happend : checkRecipients (first ++ second) = .ok () :=
    checkRecipients_eq_ok_iff.2 ⟨by simp [hne], by simp [hfirst, hsecond]⟩
  -- Someone on the first list has a box, so the sealer has one to open.
  obtain ⟨recipient, hrecipient⟩ := List.exists_mem_of_ne_nil first hne
  rw [encrypt_eq hcheck, encrypt_eq happend]
  simp only [bind_assoc, sealKeys_append]
  congr
  funext key
  congr
  funext nonce
  congr
  funext body stream
  refine Sampler.bind_congr_of_ok fun payload hpayload => ?_
  have hcontains := (contains_of_sealKeys hpayload).2 recipient hrecipient
  rw [foldlM_addRecipient hsuite (sealedBy_of_sealKeys hpayload) hcontains hsecond]

theorem encrypt_append_standard :
    Suite.standard.OpensBoxes ∧ [point 9] ≠ [] ∧ .zero ∉ [point 9] ∧
      .zero ∉ [point 2, point 9] ∧
      (encrypt .standard [104, 105] (party 1) [point 9, point 2, point 9]
        (List.replicate 104 7)).result.toOption.isSome = true ∧
      encrypt .standard [104, 105] (party 1) [point 9, point 2, point 9] =
        encrypt .standard [104, 105] (party 1) [point 9] >>= fun payload =>
          [point 2, point 9].foldlM
            (fun payload recipient => addRecipient .standard payload (party 1) recipient)
            payload := by
  have hne : [point 9] ≠ [] := by decide
  have hfirst : .zero ∉ [point 9] := by decide
  have hsecond : .zero ∉ [point 2, point 9] := by decide
  refine ⟨Suite.opensBoxes_standard, hne, hfirst, hsecond, by decide +kernel, ?_⟩
  exact encrypt_append Suite.opensBoxes_standard [104, 105] (party 1) hne hfirst hsecond

end Envelope.Payload
