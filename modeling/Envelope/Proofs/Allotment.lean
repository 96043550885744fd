import Envelope.Proofs.Delivery

/-!
# Which bytes a payload is sealed with

The front of the stream is cut up in a fixed way: the payload key, the nonce of the
body, and then a nonce for every box in the order of the list, although the boxes
themselves stand in the order of their keys. The stream may end anywhere. What was
drawn by then is lost, and a piece too short for the next draw stays.
-/

namespace Envelope.Payload

variable {suite : Suite} {key : SymmetricKey} {sealer : PrivateKey} {recipient other : PublicKey}
  {box : KeyBox} {payload final : Payload} {recipients : List PublicKey} {message stream : Bytes}

/-! ## One box -/

/-- The nonce of a box is the next 24 bytes, and nothing else can be missing. -/
theorem sealKey_cases (suite : Suite) (key : SymmetricKey) (sealer : PrivateKey)
    (recipient : PublicKey) (stream : Bytes) :
    (24 ≤ stream.length ∧ ∃ box, (sealKey suite key sealer recipient).Gives stream 24 box ∧
      box.nonce.octets.toBytes = stream.take 24) ∨
    (stream.length < 24 ∧ (sealKey suite key sealer recipient).Starves stream 0) := by
  by_cases hstream : 24 ≤ stream.length
  · left
    let nonce : Nonce := ⟨⟨stream.take 24, List.length_take_of_le hstream⟩⟩
    have hseal := Sampler.gives_sealBox (ε := Error) suite (suite.sharedKey recipient sealer) nonce
      key.octets.toBytes (stream.drop 24)
    have hbox := hseal.map fun sealedKey => KeyBox.mk (suite.publicKey sealer) nonce sealedKey
    have hgives : (sealKey suite key sealer recipient).Gives stream (24 + 0) _ :=
      (Sampler.gives_nonce hstream).bind hbox
    exact ⟨hstream, _, hgives, rfl⟩
  · have hshort : stream.length < 24 := Nat.lt_of_not_le hstream
    exact .inr ⟨hshort, (Sampler.starves_nonce hshort).bind _⟩

/-! ## All boxes -/

/-- Who has a box keeps this very box. -/
theorem find?_of_sealKeys
    (h : (sealKeys suite key sealer payload recipients stream).result = .ok final)
    (hfind : payload.boxes.find? other = some box) : final.boxes.find? other = some box := by
  refine sealKeys_induction (P := fun final => final.boxes.find? other = some box) ?_ hfind h
  intro before recipient added hbefore hmem _
  have hne : recipient ≠ other := by
    rintro rfl
    rw [KeyMap.contains_eq_false_iff.1 hmem] at hbefore
    cases hbefore
  rw [addBox_of_not_contains hmem, KeyMap.find?_insert, if_neg hne]
  exact hbefore

/-- Newcomers get the nonces of their boxes in the order in which they are named. -/
theorem nonces_of_sealKeys
    (h : (sealKeys suite key sealer payload recipients stream).result = .ok final) {i : Nat}
    (hi : (newcomers payload.boxes recipients)[i]? = some other) :
    ∃ box, final.boxes.find? other = some box ∧
      box.nonce.octets.toBytes = (stream.drop (24 * i)).take 24 := by
  induction recipients generalizing payload stream i with
  | nil => simp [newcomers] at hi
  | cons recipient rest ih =>
    cases hmem : payload.boxes.contains recipient with
    | true =>
      rw [newcomers_of_contains hmem] at hi
      rw [sealKeys_of_contains hmem] at h
      exact ih h hi
    | false =>
      rw [sealKeys_of_not_contains hmem] at h
      rcases sealKey_cases suite key sealer recipient stream with
        ⟨-, box, hbox, hnonce⟩ | ⟨-, hstarves⟩
      · rw [Sampler.bind_apply_of_ok hbox.result_eq, hbox.left_eq] at h
        rw [newcomers_addBox hmem box] at hi
        cases i with
        | zero =>
          obtain rfl : recipient = other := by simpa using hi
          refine ⟨box, find?_of_sealKeys h ?_, hnonce⟩
          rw [addBox_of_not_contains hmem, KeyMap.find?_insert, if_pos rfl]
        | succ i =>
          rw [Nat.mul_succ, Nat.add_comm, ← List.drop_drop]
          exact ih h hi
      · rw [Sampler.bind_apply_of_error hstarves.result_eq] at h
        cases h

/-- Where the nonces do not suffice for everyone, all that fit are drawn. -/
theorem starves_sealKeys
    (hstream : stream.length < 24 * (newcomers payload.boxes recipients).length) :
    (sealKeys suite key sealer payload recipients).Starves stream (24 * (stream.length / 24)) := by
  induction recipients generalizing payload stream with
  | nil => simp [newcomers] at hstream
  | cons recipient rest ih =>
    cases hmem : payload.boxes.contains recipient with
    | true =>
      rw [newcomers_of_contains hmem] at hstream
      rw [sealKeys_of_contains hmem]
      exact ih hstream
    | false =>
      rw [sealKeys_of_not_contains hmem]
      rcases sealKey_cases suite key sealer recipient stream with
        ⟨hsome, box, hbox, -⟩ | ⟨hshort, hstarves⟩
      · have hrest : (stream.drop 24).length <
            24 * (newcomers (payload.addBox recipient box).1.boxes rest).length := by
          rw [newcomers_addBox hmem box, List.length_cons] at hstream
          rw [List.length_drop]
          omega
        have hdrawn : 24 * (stream.length / 24) = 24 + 24 * ((stream.drop 24).length / 24) := by
          rw [List.length_drop]
          omega
        rw [hdrawn]
        exact hbox.starves (ih hrest)
      · rw [Nat.div_eq_of_lt hshort]
        exact hstarves.bind _

theorem starves_sealKeys_unaddressed (suite : Suite) (key : SymmetricKey) (sealer : PrivateKey)
    (sender : PublicKey) (nonce : Nonce) (body : Bytes)
    (hstream : stream.length < 24 * recipients.eraseDups.length) :
    (sealKeys suite key sealer (unaddressed sender nonce body) recipients).Starves stream
      (24 * (stream.length / 24)) := by
  rw [← newcomers_empty] at hstream
  exact starves_sealKeys hstream

/-! ## Payloads -/

/-- How a message that is sealed for a list of recipients depends on the stream. -/
structure Allotted (suite : Suite) (key : SymmetricKey) (message : Bytes) (sender : PrivateKey)
    (recipients : List PublicKey) (stream : Bytes) (payload : Payload) : Prop where
  key_eq : key.octets.toBytes = stream.take 32
  nonce_eq : payload.nonce.octets.toBytes = (stream.drop 32).take 24
  sender_eq : payload.sender = suite.publicKey sender
  body_eq : payload.body = suite.sealBody key payload.nonce message
  /-- Everyone is listed where it is named first. -/
  recipients_eq : payload.recipients = recipients.eraseDups
  contains_iff : ∀ recipient, payload.boxes.contains recipient = true ↔ recipient ∈ recipients
  box : ∀ i recipient, payload.recipients[i]? = some recipient →
    ∃ box, payload.boxes.find? recipient = some box ∧
      box.sealedBy = suite.publicKey sender ∧
      box.nonce.octets.toBytes = (stream.drop (56 + 24 * i)).take 24 ∧
      box.sealedKey =
        suite.sealBox (suite.sharedKey recipient sender) box.nonce key.octets.toBytes

theorem checkRecipients_eq_error (h : recipients = [] ∨ .zero ∈ recipients) :
    ∃ fault, checkRecipients recipients = .error (.recipient fault) := by
  cases hcheck : checkRecipients recipients with
  | ok =>
    obtain ⟨hne, hzero⟩ := checkRecipients_eq_ok_iff.1 hcheck
    exact absurd h (not_or.2 ⟨hne, hzero⟩)
  | error error =>
    unfold checkRecipients at hcheck
    split at hcheck
    · cases hcheck
      exact ⟨_, rfl⟩
    · split at hcheck
      · cases hcheck
        exact ⟨_, rfl⟩
      · cases hcheck

/-- With 56 bytes there are a payload key and a nonce, and the rest is for the boxes. -/
theorem encrypt_of_le (suite : Suite) (hcheck : checkRecipients recipients = .ok ())
    (message : Bytes) (sender : PrivateKey) (hstream : 56 ≤ stream.length) :
    ∃ key nonce, key.octets.toBytes = stream.take 32 ∧
      nonce.octets.toBytes = (stream.drop 32).take 24 ∧
      let boxes := sealKeys suite key sender
        (unaddressed (suite.publicKey sender) nonce (suite.sealBody key nonce message))
        recipients (stream.drop 56)
      (encrypt suite message sender recipients stream).result = boxes.result ∧
        (encrypt suite message sender recipients stream).left = boxes.left := by
  have hfirst : 32 ≤ stream.length := Nat.le_trans (by decide) hstream
  have hsecond : 24 ≤ (stream.drop 32).length := List.le_length_drop hstream
  let key : SymmetricKey := ⟨⟨stream.take 32, List.length_take_of_le hfirst⟩⟩
  let nonce : Nonce := ⟨⟨(stream.drop 32).take 24, List.length_take_of_le hsecond⟩⟩
  have hkey : Sampler.payloadKey.Gives stream 32 key := Sampler.gives_payloadKey hfirst
  have hnonce : Sampler.nonce.Gives (stream.drop 32) 24 nonce := Sampler.gives_nonce hsecond
  refine ⟨key, nonce, rfl, rfl, ?_⟩
  rw [encrypt_eq hcheck, Sampler.bind_apply_of_ok hkey.result_eq, hkey.left_eq,
    Sampler.bind_apply_of_ok hnonce.result_eq, hnonce.left_eq, List.drop_drop,
    Sampler.sealBody_bind]
  exact ⟨rfl, rfl⟩

/-- What a payload is made of when the draws suffice. -/
theorem allotted_of_sealKeys {sender : PrivateKey} {nonce : Nonce}
    (hkey : key.octets.toBytes = stream.take 32)
    (hnonce : nonce.octets.toBytes = (stream.drop 32).take 24)
    (h : (sealKeys suite key sender
      (unaddressed (suite.publicKey sender) nonce (suite.sealBody key nonce message))
      recipients (stream.drop 56)).result = .ok payload) :
    Allotted suite key message sender recipients stream payload := by
  obtain ⟨hsender, hsame, hbody⟩ := frame_of_sealKeys h
  have hrecipients : payload.recipients = recipients.eraseDups := by
    rw [recipients_of_sealKeys h, unaddressed, newcomers_empty, List.nil_append]
  constructor
  · exact hkey
  · rw [hsame]
    exact hnonce
  · exact hsender
  · rw [hbody, hsame]
    rfl
  · exact hrecipients
  · intro recipient
    rw [← (listed_of_sealKeys h).mem_iff, hrecipients, List.mem_eraseDups]
  · intro i recipient hi
    rw [hrecipients, ← newcomers_empty] at hi
    obtain ⟨box, hfind, hbox⟩ := nonces_of_sealKeys h hi
    have hholds := sealedBy_of_sealKeys h recipient box hfind
    rw [List.drop_drop] at hbox
    exact ⟨box, hfind, hholds.sealedBy_eq, hbox, hholds.sealedKey_eq⟩

/-- What is left of so many bytes when they do not suffice for sealing. -/
def remnant (size : Nat) : Nat :=
  if size < 32 then size else if size < 56 then size - 32 else (size - 56) % 24

theorem starves_encrypt (suite : Suite) (hcheck : checkRecipients recipients = .ok ())
    (message : Bytes) (sender : PrivateKey)
    (hstream : stream.length < 56 + 24 * recipients.eraseDups.length) :
    (encrypt suite message sender recipients).Starves stream
      (stream.length - remnant stream.length) := by
  by_cases hkey : stream.length < 32
  · rw [remnant, if_pos hkey, Nat.sub_self, encrypt_eq hcheck]
    exact (Sampler.starves_payloadKey hkey).bind _
  have hfirst : 32 ≤ stream.length := Nat.le_of_not_lt hkey
  by_cases hnonce : stream.length < 56
  · have hshort : (stream.drop 32).length < 24 := by
      rw [List.length_drop]
      omega
    rw [remnant, if_neg hkey, if_pos hnonce, Nat.sub_sub_self hfirst, encrypt_eq hcheck]
    refine (Sampler.gives_payloadKey hfirst).starves (?_ : Sampler.Starves _ (stream.drop 32) 0)
    exact (Sampler.starves_nonce hshort).bind _
  · have hshort : (stream.drop 56).length < 24 * recipients.eraseDups.length := by
      rw [List.length_drop]
      omega
    obtain ⟨key, nonce, -, -, hresult, hleft⟩ :=
      encrypt_of_le suite hcheck message sender (Nat.le_of_not_lt hnonce)
    have hboxes := starves_sealKeys_unaddressed suite key sender (suite.publicKey sender) nonce
      (suite.sealBody key nonce message) hshort
    have hdrawn : stream.length - remnant stream.length =
        56 + 24 * ((stream.drop 56).length / 24) := by
      rw [remnant, if_neg hkey, if_neg hnonce, List.length_drop]
      omega
    rw [hdrawn]
    constructor
    · exact hresult.trans hboxes.result_eq
    · rw [hleft, hboxes.left_eq, List.drop_drop]

theorem remnant_le (size : Nat) : remnant size ≤ size := by
  unfold remnant
  split
  · exact Nat.le_refl _
  · split
    · exact Nat.sub_le _ _
    · omega

/-- Sealing a message is refused at once, or it is decided by the number of bytes
alone: it needs a key, a nonce and one nonce more for everybody who is named. Then
all bytes are used as they stand on the stream, or they run out at a known place. -/
theorem encrypt_allots (suite : Suite) (message : Bytes) (sender : PrivateKey)
    (recipients : List PublicKey) (stream : Bytes) :
    let outcome := encrypt suite message sender recipients stream
    let needed := 56 + 24 * recipients.eraseDups.length
    (recipients = [] ∨ .zero ∈ recipients →
      ∃ fault, outcome = ⟨.error (.recipient fault), stream, []⟩) ∧
    (recipients ≠ [] → .zero ∉ recipients →
      ((∃ payload, outcome.result = .ok payload) ↔ needed ≤ stream.length) ∧
      (∀ payload, outcome.result = .ok payload → outcome.left = stream.drop needed ∧
        ∃ key, Allotted suite key message sender recipients stream payload) ∧
      (stream.length < needed → outcome.result = .error (.resource .randomness) ∧
        outcome.left.length = remnant stream.length ∧
        outcome.left = stream.drop (stream.length - remnant stream.length))) := by
  intro outcome needed
  constructor
  · intro hrefused
    obtain ⟨fault, hcheck⟩ := checkRecipients_eq_error hrefused
    exact ⟨fault, by simp [outcome, encrypt, hcheck]⟩
  intro hne hzero
  have hcheck : checkRecipients recipients = .ok () := checkRecipients_eq_ok_iff.2 ⟨hne, hzero⟩
  by_cases hstream : needed ≤ stream.length
  · obtain ⟨payload, hgives⟩ := gives_encrypt suite message sender hcheck hstream
    refine ⟨iff_of_true ⟨payload, hgives.result_eq⟩ hstream, ?_,
      fun hshort => absurd hstream (Nat.not_le.2 hshort)⟩
    intro payload hpayload
    obtain ⟨key, nonce, hkey, hnonce, hresult, -⟩ :=
      encrypt_of_le suite hcheck message sender (Nat.le_of_add_right_le hstream)
    exact ⟨hgives.left_eq, key, allotted_of_sealKeys hkey hnonce (hresult.symm.trans hpayload)⟩
  · have hstarves := starves_encrypt suite hcheck message sender (Nat.lt_of_not_le hstream)
    have hfails : ∀ payload, outcome.result ≠ .ok payload := by
      intro payload hpayload
      rw [show outcome.result = _ from hstarves.result_eq] at hpayload
      cases hpayload
    refine ⟨iff_of_false (fun hsome => hsome.elim hfails) hstream,
      fun payload h => absurd h (hfails payload),
      fun _ => ⟨hstarves.result_eq, ?_, hstarves.left_eq⟩⟩
    rw [show outcome.left = _ from hstarves.left_eq, List.length_drop,
      Nat.sub_sub_self (remnant_le _)]

/-- The bytes from 0 to 103. -/
def ladder : Bytes :=
  (List.range 104).map UInt8.ofNat

/-- The second recipient has the last nonce although its box comes first. With one byte
fewer, whatever was drawn before that nonce is lost. -/
theorem encrypt_allots_ladder :
    let recipients := [point 9, point 2, point 9]
    (∃ payload key, (encrypt .standard [104, 105] (party 1) recipients ladder).result =
        .ok payload ∧
      Allotted .standard key [104, 105] (party 1) recipients ladder payload ∧
      payload.recipients = [point 9, point 2] ∧ payload.boxes.keys = [point 2, point 9] ∧
      ∃ box, payload.boxes.find? (point 2) = some box ∧
        box.nonce.octets.toBytes = ladder.drop 80) ∧
    (encrypt .standard [104, 105] (party 1) recipients (ladder.take 103)).result =
      .error (.resource .randomness) ∧
    (encrypt .standard [104, 105] (party 1) recipients (ladder.take 103)).left =
      (ladder.drop 80).take 23 := by
  intro recipients
  have hne : recipients ≠ [] := List.cons_ne_nil _ _
  have hzero : .zero ∉ recipients := by decide +kernel
  obtain ⟨hsucceeds, hallots, -⟩ :=
    (encrypt_allots .standard [104, 105] (party 1) recipients ladder).2 hne hzero
  obtain ⟨-, -, hstarves⟩ :=
    (encrypt_allots .standard [104, 105] (party 1) recipients (ladder.take 103)).2 hne hzero
  obtain ⟨hresult, -, hleft⟩ := hstarves (by decide +kernel)
  obtain ⟨payload, hpayload⟩ := hsucceeds.2 (by decide +kernel)
  obtain ⟨-, key, hallotted⟩ := hallots payload hpayload
  have hlisted : payload.recipients = [point 9, point 2] := by
    rw [hallotted.recipients_eq]
    decide +kernel
  have hkeys : ((encrypt .standard [104, 105] (party 1) recipients ladder).result.map
      fun payload => payload.boxes.keys) = .ok [point 2, point 9] := by decide +kernel
  rw [hpayload] at hkeys
  obtain ⟨box, hfind, -, hnonce, -⟩ := hallotted.box 1 (point 2) (by rw [hlisted]; rfl)
  refine ⟨⟨payload, key, hpayload, hallotted, hlisted, Except.ok.inj hkeys, box, hfind, ?_⟩,
    hresult, hleft.trans (by decide +kernel)⟩
  rw [hnonce]
  decide +kernel

end Envelope.Payload
