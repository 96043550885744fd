import Envelope.Lists
import Envelope.Proofs.History
import Envelope.Proofs.Openers

/-!
# Sealing for everyone who should read

Sealing draws a payload key, a nonce for the body and one for the box of every
recipient, and then nothing can fail. Whoever is named more than once, by the
caller or as a forwarding key, gets one box and stands on the list where it was
named first. An enclave comes to the same over both of its ways, whatever time
passes between a draft and its recipients.
-/

namespace Envelope

/-- A payload key and a nonce take 56 bytes. -/
theorem Sampler.exists_gives_of_key_nonce {β : Type} {f : SymmetricKey → Nonce → Sampler Error β}
    {stream : Bytes} {taken : Nat} (hstream : 56 ≤ stream.length)
    (h : ∀ key nonce, ∃ b, (f key nonce).Gives (stream.drop 56) taken b) :
    ∃ b, (payloadKey >>= fun key => Sampler.nonce >>= fun nonce => f key nonce).Gives stream
      (56 + taken) b := by
  obtain ⟨key, hkey⟩ : ∃ key, payloadKey.Gives stream 32 key :=
    ⟨_, gives_payloadKey (Nat.le_trans (by decide) hstream)⟩
  obtain ⟨nonce, hnonce⟩ : ∃ nonce, Sampler.nonce.Gives (stream.drop 32) 24 nonce :=
    ⟨_, gives_nonce (List.le_length_drop hstream)⟩
  obtain ⟨b, hb⟩ := h key nonce
  have hrest : (f key nonce).Gives ((stream.drop 32).drop 24) taken b := by
    rw [List.drop_drop]
    exact hb
  refine ⟨b, ?_⟩
  rw [show 56 + taken = 32 + (24 + taken) by omega]
  exact hkey.bind (hnonce.bind hrest : Gives _ (stream.drop 32) _ _)

namespace Payload

variable {suite : Suite} {key : SymmetricKey} {sealer sender own : PrivateKey} {nonce : Nonce}
  {recipient : PublicKey} {boxes : KeyMap KeyBox} {payload final : Payload}
  {recipients : List PublicKey} {message stream : Bytes}

/-! ## Who gets a box -/

/-- Those on a list who have no box, each where it is named first. -/
def newcomers (boxes : KeyMap KeyBox) (recipients : List PublicKey) : List PublicKey :=
  (recipients.filter fun recipient => !boxes.contains recipient).eraseDups

theorem newcomers_of_contains (h : boxes.contains recipient = true) :
    newcomers boxes (recipient :: recipients) = newcomers boxes recipients := by
  simp [newcomers, h]

theorem newcomers_of_not_contains (h : boxes.contains recipient = false) (box : KeyBox) :
    newcomers boxes (recipient :: recipients) =
      recipient :: newcomers (boxes.insert recipient box) recipients := by
  have hfilter : (fun other => (!other == recipient) && !boxes.contains other) =
      fun other => !(boxes.insert recipient box).contains other := by
    funext other
    rw [KeyMap.contains_insert]
    by_cases he : recipient = other
    · simp [he]
    · simp [he, Ne.symm he]
  rw [newcomers, List.filter_cons_of_pos (by simp [h]), List.eraseDups_cons, List.filter_filter,
    hfilter]
  rfl

/-- Once the first one has a box, the others are the newcomers. -/
theorem newcomers_addBox (h : payload.boxes.contains recipient = false) (box : KeyBox) :
    newcomers payload.boxes (recipient :: recipients) =
      recipient :: newcomers (payload.addBox recipient box).1.boxes recipients := by
  rw [addBox_of_not_contains h]
  exact newcomers_of_not_contains h box

theorem newcomers_empty (recipients : List PublicKey) :
    newcomers .empty recipients = recipients.eraseDups := by
  have hall : recipients.filter (fun recipient => !KeyMap.empty.contains (β := KeyBox) recipient) =
      recipients :=
    List.filter_eq_self.2 fun _ _ => rfl
  rw [newcomers, hall]

theorem recipients_of_sealKeys
    (h : (sealKeys suite key sealer payload recipients stream).result = .ok final) :
    final.recipients = payload.recipients ++ newcomers payload.boxes recipients := by
  induction recipients generalizing payload stream with
  | nil =>
    cases h
    simp [newcomers]
  | cons recipient rest ih =>
    cases hmem : payload.boxes.contains recipient with
    | true =>
      rw [sealKeys_of_contains hmem] at h
      rw [newcomers_of_contains hmem, ih h]
    | false =>
      rw [sealKeys_of_not_contains hmem] at h
      obtain ⟨box, -, h⟩ := Sampler.result_bind_eq_ok_iff.1 h
      rw [ih h, newcomers_addBox hmem box, addBox_of_not_contains hmem, List.append_assoc]
      rfl

/-- Every newcomer takes a nonce, and nothing else can fail. -/
theorem gives_sealKeys
    (hstream : 24 * (newcomers payload.boxes recipients).length ≤ stream.length) :
    ∃ final, (sealKeys suite key sealer payload recipients).Gives stream
      (24 * (newcomers payload.boxes recipients).length) final := by
  induction recipients generalizing payload stream with
  | nil => exact ⟨payload, Sampler.gives_pure payload stream⟩
  | cons recipient rest ih =>
    cases hmem : payload.boxes.contains recipient with
    | true =>
      rw [newcomers_of_contains hmem] at hstream ⊢
      rw [sealKeys_of_contains hmem]
      exact ih hstream
    | false =>
      have hcount (box : KeyBox) : (newcomers payload.boxes (recipient :: rest)).length =
          (newcomers (payload.addBox recipient box).1.boxes rest).length + 1 := by
        rw [newcomers_addBox hmem box, List.length_cons]
      obtain ⟨box, hbox⟩ : ∃ box, (sealKey suite key sealer recipient).Gives stream 24 box := by
        apply gives_sealKey
        rw [hcount ⟨recipient, ⟨.zero⟩, []⟩] at hstream
        omega
      have hrest : 24 * (newcomers (payload.addBox recipient box).1.boxes rest).length ≤
          (stream.drop 24).length := by
        rw [hcount box] at hstream
        exact List.le_length_drop (by omega)
      obtain ⟨final, hfinal⟩ := ih hrest
      refine ⟨final, ?_⟩
      rw [sealKeys_of_not_contains hmem, hcount box, Nat.mul_add, Nat.add_comm]
      exact hbox.bind hfinal

/-- With a nonce for every recipient there is a payload, whatever it starts from. -/
theorem gives_sealKeys_unaddressed (suite : Suite) (key : SymmetricKey) (sealer : PrivateKey)
    (sender : PublicKey) (nonce : Nonce) (body : Bytes)
    (hstream : 24 * recipients.eraseDups.length ≤ stream.length) :
    ∃ final, (sealKeys suite key sealer (unaddressed sender nonce body) recipients).Gives stream
      (24 * recipients.eraseDups.length) final := by
  rw [← newcomers_empty] at hstream ⊢
  exact gives_sealKeys hstream

theorem gives_encrypt (suite : Suite) (message : Bytes) (sender : PrivateKey)
    (hcheck : checkRecipients recipients = .ok ())
    (hstream : 56 + 24 * recipients.eraseDups.length ≤ stream.length) :
    ∃ payload, (encrypt suite message sender recipients).Gives stream
      (56 + 24 * recipients.eraseDups.length) payload := by
  have hrest : 24 * recipients.eraseDups.length ≤ ((stream.drop 56).drop 0).length := by
    rw [List.drop_zero]
    exact List.le_length_drop hstream
  rw [encrypt_eq hcheck]
  apply Sampler.exists_gives_of_key_nonce (Nat.le_of_add_right_le hstream)
  intro key nonce
  have hbody := Sampler.gives_sealBody (ε := Error) suite key nonce message (stream.drop 56)
  obtain ⟨payload, hboxes⟩ := gives_sealKeys_unaddressed suite key sender (suite.publicKey sender)
    nonce (suite.sealBody key nonce message) hrest
  refine ⟨payload, ?_⟩
  rw [← Nat.zero_add (24 * recipients.eraseDups.length)]
  exact hbody.bind hboxes

/-! ## Who reads -/

/-- A payload that its sender sealed for some recipients. -/
def SealedFor (suite : Suite) (message : Bytes) (sender : PrivateKey) (recipients : List PublicKey)
    (payload : Payload) : Prop :=
  ∃ key nonce stream, (sealKeys suite key sender
    (unaddressed (suite.publicKey sender) nonce (suite.sealBody key nonce message))
    recipients stream).result = .ok payload

theorem SealedFor.sender_eq (h : SealedFor suite message sender recipients payload) :
    payload.sender = suite.publicKey sender := by
  obtain ⟨key, nonce, stream, h⟩ := h
  exact (frame_of_sealKeys h).1

theorem SealedFor.recipients_eq (h : SealedFor suite message sender recipients payload) :
    payload.recipients = recipients.eraseDups := by
  obtain ⟨key, nonce, stream, h⟩ := h
  rw [recipients_of_sealKeys h, unaddressed, newcomers_empty, List.nil_append]

theorem SealedFor.listed (h : SealedFor suite message sender recipients payload) :
    payload.Listed := by
  obtain ⟨key, nonce, stream, h⟩ := h
  exact listed_of_sealKeys h

/-- Every recipient reads the message. -/
theorem SealedFor.decrypt_recipient (h : SealedFor suite message sender recipients payload)
    (hsuite : suite.Lawful) (hown : suite.publicKey own ∈ recipients) :
    decrypt suite payload own = .ok message := by
  obtain ⟨key, nonce, stream, h⟩ := h
  have hkeeps := (sound_of_sealKeys hsuite h).keeps _ List.mem_cons_self
  have hbox := (contains_of_sealKeys h).2 _ hown
  rw [decrypt_of_recoverKey (hkeeps.recoverKey_addressee hsuite hbox)]
  exact hkeeps.opens

/-- The sender reads the message, and so does whoever computes the same shared keys. -/
theorem SealedFor.decrypt_sender (h : SealedFor suite message sender recipients payload)
    (hsuite : suite.Lawful) (hne : recipients ≠ [])
    (hname : suite.publicKey own = suite.publicKey sender)
    (hshared : ∀ recipient ∈ recipients,
      suite.sharedKey recipient own = suite.sharedKey recipient sender) :
    decrypt suite payload own = .ok message := by
  have hlist := h.recipients_eq
  obtain ⟨key, nonce, stream, h⟩ := h
  have hkeeps := (sound_of_sealKeys hsuite h).keeps _ List.mem_cons_self
  have hconsonant : Consonant suite own (newSealings .empty payload sender) := by
    intro sealing hmem _
    obtain ⟨hfind, -, hsealer⟩ := mem_newSealings.1 hmem
    have hlisted : sealing.recipient ∈ payload.recipients :=
      (hkeeps.listed.mem_iff _).2 (KeyMap.contains_iff_exists.2 ⟨_, hfind⟩)
    rw [hlist, List.mem_eraseDups] at hlisted
    rw [hsealer]
    exact hshared _ hlisted
  obtain ⟨recipient, hrecipient⟩ := List.exists_mem_of_ne_nil recipients hne
  obtain ⟨box, hfind⟩ :=
    KeyMap.contains_iff_exists.1 ((contains_of_sealKeys h).2 recipient hrecipient)
  have hsealed := (sealedBy_of_sealKeys h recipient box hfind).sealedBy_eq
  obtain ⟨route, hroute⟩ := route?_isSome hfind (hsealed.trans hname.symm)
  rw [decrypt_of_recoverKey (hkeeps.recoverKey_of_route? hsuite hconsonant hroute)]
  exact hkeeps.opens

end Payload

namespace Draft

variable {suite : Suite} {message stream : Bytes} {sender : PrivateKey} {draft : Draft}
  {recipients : List PublicKey}

theorem gives_encrypt (suite : Suite) (message : Bytes) (sender : PrivateKey)
    (hstream : 56 ≤ stream.length) :
    ∃ draft, (encrypt suite message sender).Gives stream 56 draft := by
  unfold encrypt
  refine Sampler.exists_gives_of_key_nonce hstream
    (?_ : ∀ key nonce, ∃ draft, Sampler.Gives _ (stream.drop 56) (0 + 0) draft)
  intro key nonce
  have hbody := Sampler.gives_sealBody (ε := Error) suite key nonce message (stream.drop 56)
  have hsealed := Sampler.gives_sealBox (ε := Error) suite
    (suite.sharedKey (suite.publicKey sender) sender) nonce key.octets.toBytes
    ((stream.drop 56).drop 0)
  have hdraft := hsealed.map fun sealedKey =>
    Draft.mk (suite.sealBody key nonce message) sealedKey nonce (suite.publicKey sender)
  exact ⟨_, hbody.bind hdraft⟩

/-- The sender finds the payload key in its draft, so that addressing it can only
run out of random bytes. -/
theorem gives_address (hsuite : suite.OpensBoxes)
    (hdraft : (encrypt suite message sender stream).result = .ok draft)
    (hcheck : Payload.checkRecipients recipients = .ok ()) {later : Bytes}
    (hlater : 24 * recipients.eraseDups.length ≤ later.length) :
    ∃ payload, (draft.address suite sender recipients).Gives later
      (24 * recipients.eraseDups.length) payload := by
  obtain ⟨key, nonce, rfl⟩ := encrypt_cases hdraft
  rw [address_of_openKey? hcheck (Payload.openKey?_sealBox hsuite rfl)]
  exact Payload.gives_sealKeys_unaddressed suite key sender _ nonce _ hlater

end Draft

namespace Enclave

variable {suite : Suite} {enclave : Enclave} {message stream : Bytes} {sender : KeyPair}
  {recipients : List PublicKey} {payload : Payload}

/-- Whom an enclave seals for: the caller's recipients as they are first named, and
then the forwarding keys that the caller did not name. -/
def addressees (enclave : Enclave) (recipients : List PublicKey) : List PublicKey :=
  recipients.eraseDups ++ enclave.ring.forwarding.keys.filter (· ∉ recipients)

/-- What becomes of a message that an enclave seals for its caller. -/
structure Delivers (suite : Suite) (enclave : Enclave) (message : Bytes) (sender : KeyPair)
    (recipients : List PublicKey) (payload : Payload) : Prop where
  sender_eq : payload.sender = sender.publicKey
  recipients_eq : payload.recipients = enclave.addressees recipients
  /-- Each of them has one box. -/
  listed : payload.Listed
  recipients_read : ∀ own, suite.publicKey own ∈ recipients →
    payload.decrypt suite own = .ok message
  forwarding_read : ∀ own, suite.publicKey own ∈ enclave.ring.forwarding.keys →
    payload.decrypt suite own = .ok message
  /-- The held key reads the message, and where all boxes are for parties, any
  other private key with the same public key does too. -/
  sender_reads : ∀ own, suite.publicKey own = sender.publicKey →
    (own = sender.privateKey ∨
      ∀ recipient ∈ payload.recipients, ∃ party, suite.publicKey party = recipient) →
    payload.decrypt suite own = .ok message
  enclave_reads : enclave.decrypt suite payload sender.publicKey = .ok message

theorem eraseDups_withForwarding (enclave : Enclave) (recipients : List PublicKey) :
    (enclave.withForwarding recipients).eraseDups = enclave.addressees recipients := by
  have hremove : enclave.ring.forwarding.keys.removeAll recipients =
      enclave.ring.forwarding.keys.filter (· ∉ recipients) := by
    simp only [List.removeAll, List.elem_eq_mem, decide_not]
  have hnodup : (enclave.ring.forwarding.keys.filter (· ∉ recipients)).Nodup :=
    enclave.ring.forwarding.nodup_keys.filter _
  rw [withForwarding, List.eraseDups_append, hremove, List.eraseDups_of_nodup hnodup]
  rfl

theorem delivers_of_sealedFor (hsuite : suite.Lawful) (hrunning : enclave.running = true)
    (hpaired : enclave.ring.Paired suite) (hsender : sender ∈ enclave.ring.pairs)
    (hne : recipients ≠ [])
    (h : payload.SealedFor suite message sender.privateKey (enclave.withForwarding recipients)) :
    enclave.Delivers suite message sender recipients payload := by
  have hname : sender.publicKey = suite.publicKey sender.privateKey := hpaired _ hsender
  have hne' : enclave.withForwarding recipients ≠ [] := by simp [withForwarding, hne]
  have hlist := h.recipients_eq
  have hown : payload.decrypt suite sender.privateKey = .ok message :=
    h.decrypt_sender hsuite hne' rfl fun _ _ => rfl
  constructor
  · exact h.sender_eq.trans hname.symm
  · exact hlist.trans (eraseDups_withForwarding enclave recipients)
  · exact h.listed
  · intro own hmem
    exact h.decrypt_recipient hsuite (List.mem_append_left _ hmem)
  · intro own hmem
    exact h.decrypt_recipient hsuite (List.mem_append_right _ hmem)
  · rintro own hkey (rfl | hparties)
    · exact hown
    · apply h.decrypt_sender hsuite hne' (hkey.trans hname)
      intro recipient hmem
      rw [← List.mem_eraseDups, ← hlist] at hmem
      obtain ⟨party, rfl⟩ := hparties recipient hmem
      -- The recipient computes the shared key from the public key alone.
      rw [hsuite.sharesKeys, hsuite.sharesKeys party, hkey, hname]
  · have hheld := KeyRing.privateKey_of_mem hsender
    exact (decrypt_eq_ok_iff hrunning).2 ⟨_, hheld, hown⟩

/-- A caller who names nobody is refused, even where payloads are forwarded. Any
other message reaches everyone it should, sealed at once or drafted first, with a
nonce for every box, unless somebody is addressed by the zero key. -/
theorem delivers_to_all (hsuite : suite.Lawful) (hrunning : enclave.running = true)
    (hpaired : enclave.ring.Paired suite) (message : Bytes) :
    (∀ sender, enclave.encrypt suite message sender [] =
      Sampler.fail (.crypto (.recipient .noRecipient))) ∧
    (∀ draft, enclave.addressDraft suite draft [] =
      Sampler.fail (.crypto (.recipient .noRecipient))) ∧
    enclave.ring.forwarding.keys.Pairwise (· < ·) ∧
    ∀ sender ∈ enclave.ring.pairs, ∀ recipients, recipients ≠ [] → .zero ∉ recipients →
      .zero ∉ enclave.ring.forwarding.keys →
        (∀ stream, 56 + 24 * (enclave.addressees recipients).length ≤ stream.length →
          ∃ payload, (enclave.encrypt suite message sender.publicKey recipients).Gives stream
              (56 + 24 * (enclave.addressees recipients).length) payload ∧
            enclave.Delivers suite message sender recipients payload) ∧
        ∀ stream later, 56 ≤ stream.length →
          24 * (enclave.addressees recipients).length ≤ later.length →
          ∃ draft payload,
            (enclave.encryptDraft suite message sender.publicKey).Gives stream 56 draft ∧
            (enclave.addressDraft suite draft recipients).Gives later
              (24 * (enclave.addressees recipients).length) payload ∧
            enclave.Delivers suite message sender recipients payload := by
  refine ⟨fun sender => ?_, fun draft => ?_, List.pairwise_map.2 enclave.ring.forwarding.sorted, ?_⟩
  · simp [encrypt, requireRunning, requireRecipients, hrunning]
  · simp [addressDraft, requireRunning, requireRecipients, hrunning]
  intro sender hsender recipients hne hzero hforwarding
  have hheld := KeyRing.privateKey_of_mem hsender
  have hcheck : Payload.checkRecipients (enclave.withForwarding recipients) = .ok () :=
    Payload.checkRecipients_eq_ok_iff.2
      ⟨by simp [withForwarding, hne], by simp [withForwarding, hzero, hforwarding]⟩
  simp only [← eraseDups_withForwarding]
  constructor
  · intro stream hstream
    obtain ⟨payload, hgives⟩ :=
      Payload.gives_encrypt suite message sender.privateKey hcheck hstream
    refine ⟨payload, ?_, ?_⟩
    · rw [encrypt_of_privateKey hrunning hne hheld]
      exact hgives.mapError _
    · exact delivers_of_sealedFor hsuite hrunning hpaired hsender hne
        (Payload.encrypt_cases hgives.result_eq)
  · intro stream later hstream hlater
    obtain ⟨draft, hdraft⟩ := Draft.gives_encrypt suite message sender.privateKey hstream
    obtain ⟨payload, hgives⟩ :=
      Draft.gives_address hsuite.opensBoxes hdraft.result_eq hcheck hlater
    -- The draft names its sender, so the enclave finds the same private key again.
    have hname : draft.sender = sender.publicKey :=
      (Draft.sender_of_encrypt hdraft.result_eq).trans (hpaired _ hsender).symm
    refine ⟨draft, payload, ?_, ?_, ?_⟩
    · rw [encryptDraft_of_privateKey hrunning hheld]
      exact hdraft.mapError _
    · rw [addressDraft_of_privateKey hrunning hne (hname ▸ hheld)]
      exact hgives.mapError _
    · exact delivers_of_sealedFor hsuite hrunning hpaired hsender hne
        (Payload.encrypt_address_cases hsuite.opensBoxes hdraft.result_eq hgives.result_eq)

/-- The enclave of the first of four parties. It forwards to the fourth, and to
itself. -/
def relay : Enclave :=
  start
    { pairs := [Suite.quartet.keyPair (party 1)]
      forwarding := .ofKeys [partyKey 4, partyKey 1]
      pairs_ne_nil := List.cons_ne_nil _ _
      nodup := by simp }

theorem delivers_to_all_relay :
    let sender := Suite.quartet.keyPair (party 1)
    let recipients := [partyKey 3, partyKey 2, partyKey 3, partyKey 4]
    let listed := [partyKey 3, partyKey 2, partyKey 4, partyKey 1]
    Suite.quartet.Lawful ∧ relay.running = true ∧ relay.ring.Paired .quartet ∧
      sender ∈ relay.ring.pairs ∧ recipients ≠ [] ∧ .zero ∉ recipients ∧
      .zero ∉ relay.ring.forwarding.keys ∧
      56 + 24 * (relay.addressees recipients).length ≤ (List.replicate 152 (7 : UInt8)).length ∧
      (relay.encrypt .quartet [104, 105] sender.publicKey [] (List.replicate 152 7)).result =
        .error (.crypto (.recipient .noRecipient)) ∧
      (∃ payload, (relay.encrypt .quartet [104, 105] sender.publicKey recipients).Gives
          (List.replicate 152 7) 152 payload ∧ payload.recipients = listed ∧
        relay.Delivers .quartet [104, 105] sender recipients payload) ∧
      ∃ draft payload, (relay.encryptDraft .quartet [104, 105] sender.publicKey).Gives
          (List.replicate 56 7) 56 draft ∧
        (relay.addressDraft .quartet draft recipients).Gives (List.replicate 96 7) 96 payload ∧
        payload.recipients = listed ∧ payload.decrypt .quartet (party 1) = .ok [104, 105] ∧
        ∀ byte ∈ [2, 3, 4], payload.decrypt .quartet (party byte) = .ok [104, 105] := by
  intro sender recipients listed
  have hsuite : Suite.quartet.Lawful := Suite.lawful_circle _
  have hrunning : relay.running = true := rfl
  have hpaired : relay.ring.Paired .quartet := by
    intro pair hmem
    rw [List.mem_singleton.1 hmem]
    rfl
  have hsender : sender ∈ relay.ring.pairs := List.mem_singleton.2 rfl
  have hfacts : .zero ∉ recipients ∧ .zero ∉ relay.ring.forwarding.keys ∧
      relay.addressees recipients = listed := by decide +kernel
  obtain ⟨hzero, hforwarding, hlisted⟩ := hfacts
  have hne : recipients ≠ [] := List.cons_ne_nil _ _
  have hcount : (relay.addressees recipients).length = 4 := by rw [hlisted]; rfl
  obtain ⟨hempty, -, -, hall⟩ := delivers_to_all hsuite hrunning hpaired [104, 105]
  obtain ⟨hsealed, hdrafted⟩ := hall sender hsender recipients hne hzero hforwarding
  simp only [hcount] at hsealed hdrafted
  obtain ⟨payload, hgives, hdelivers⟩ := hsealed (List.replicate 152 7) (by simp)
  obtain ⟨draft, late, hdraft, hlate, hreads⟩ :=
    hdrafted (List.replicate 56 7) (List.replicate 96 7) (by simp) (by simp)
  refine ⟨hsuite, hrunning, hpaired, hsender, hne, hzero, hforwarding, by simp [hcount], ?_, ?_, ?_⟩
  · rw [hempty]
    rfl
  · exact ⟨payload, hgives, hdelivers.recipients_eq.trans hlisted, hdelivers⟩
  · refine ⟨draft, late, hdraft, hlate, hreads.recipients_eq.trans hlisted,
      hreads.sender_reads (party 1) rfl (.inl rfl), ?_⟩
    intro byte hbyte
    simp only [List.mem_cons, List.not_mem_nil, or_false] at hbyte
    rcases hbyte with rfl | rfl | rfl
    · exact hreads.recipients_read _ (by simp [recipients, partyKey])
    · exact hreads.recipients_read _ (by simp [recipients, partyKey])
    · exact hreads.recipients_read _ (by simp [recipients, partyKey])

end Enclave

end Envelope
