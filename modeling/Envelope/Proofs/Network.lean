import Envelope.Proofs.History
import Envelope.Proofs.Openers

/-!
# Payloads among enclaves

A payload leaves one enclave and circulates: copies of it are sent around, an
enclave that can open one makes a box, and the box joins this or another copy.
An enclave picks the key that it opens with by names alone. In circulation that
is enough, since every name on a payload leads to the payload key: a sender or
sealer sealed one of the boxes, and an addressee has one.
-/

namespace Envelope

/-- The private key is in one of the pairs of the enclave. -/
def Enclave.Holds (enclave : Enclave) (key : PrivateKey) : Prop :=
  ∃ pair ∈ enclave.ring.pairs, pair.privateKey = key

/-- Running enclaves. Their key pairs belong together, and different private
keys have different public keys. -/
structure Network (suite : Suite) where
  enclaves : List Enclave
  running : ∀ enclave ∈ enclaves, enclave.running = true
  paired : ∀ enclave ∈ enclaves, enclave.ring.Paired suite
  distinct : ∀ enclave ∈ enclaves, ∀ other ∈ enclaves, ∀ a b,
    enclave.Holds a → other.Holds b → suite.publicKey a = suite.publicKey b → a = b

namespace Enclave

variable {suite : Suite} {enclave : Enclave} {message : Bytes} {recipients : List PublicKey}
  {sender : PublicKey} {stream : Bytes} {payload : Payload} {draft : Draft}

theorem withForwarding_ne_nil (h : requireRecipients recipients = .ok ()) :
    enclave.withForwarding recipients ≠ [] := by
  rintro hnil
  rw [(List.append_eq_nil_iff.1 hnil).1] at h
  cases h

/-- What an enclave seals is sealed with a held key, for somebody. -/
theorem encrypt_cases
    (h : (enclave.encrypt suite message sender recipients stream).result = .ok payload) :
    enclave.withForwarding recipients ≠ [] ∧
      ∃ key, enclave.ring.privateKey sender = .ok key ∧
        (Payload.encrypt suite message key (enclave.withForwarding recipients) stream).result =
          .ok payload := by
  unfold encrypt at h
  obtain ⟨-, -, h⟩ := Sampler.result_bind_eq_ok_iff.1 h
  obtain ⟨⟨⟩, hrecipients, h⟩ := Sampler.result_bind_eq_ok_iff.1 h
  obtain ⟨key, hkey, h⟩ := Sampler.result_bind_eq_ok_iff.1 h
  exact ⟨withForwarding_ne_nil hrecipients, key, hkey, Sampler.result_mapError_eq_ok_iff.1 h⟩

theorem encryptDraft_cases
    (h : (enclave.encryptDraft suite message sender stream).result = .ok draft) :
    ∃ key, enclave.ring.privateKey sender = .ok key ∧
      (Draft.encrypt suite message key stream).result = .ok draft := by
  unfold encryptDraft at h
  obtain ⟨-, -, h⟩ := Sampler.result_bind_eq_ok_iff.1 h
  obtain ⟨key, hkey, h⟩ := Sampler.result_bind_eq_ok_iff.1 h
  exact ⟨key, hkey, Sampler.result_mapError_eq_ok_iff.1 h⟩

theorem addressDraft_cases
    (h : (enclave.addressDraft suite draft recipients stream).result = .ok payload) :
    enclave.withForwarding recipients ≠ [] ∧
      ∃ key, enclave.ring.privateKey draft.sender = .ok key ∧
        (draft.address suite key (enclave.withForwarding recipients) stream).result =
          .ok payload := by
  unfold addressDraft at h
  obtain ⟨-, -, h⟩ := Sampler.result_bind_eq_ok_iff.1 h
  obtain ⟨⟨⟩, hrecipients, h⟩ := Sampler.result_bind_eq_ok_iff.1 h
  obtain ⟨key, hkey, h⟩ := Sampler.result_bind_eq_ok_iff.1 h
  exact ⟨withForwarding_ne_nil hrecipients, key, hkey, Sampler.result_mapError_eq_ok_iff.1 h⟩

end Enclave

namespace Network

variable {suite : Suite} (network : Network suite)

def Holds (key : PrivateKey) : Prop :=
  ∃ enclave ∈ network.enclaves, enclave.Holds key

/-- No enclave holds another private key with the same public key. -/
def Apart (key : PrivateKey) : Prop :=
  ∀ held, network.Holds held → suite.publicKey held = suite.publicKey key → held = key

/-- How a payload comes into circulation: an enclave seals a message at once, or
as a draft that is addressed later. -/
inductive Sends (message : Bytes) (payload : Payload) : Prop
  | sealed {enclave sender recipients stream} (henclave : enclave ∈ network.enclaves)
      (h : (enclave.encrypt suite message sender recipients stream).result = .ok payload)
  | drafted {enclave addresser sender recipients stream stream' draft}
      (henclave : enclave ∈ network.enclaves) (haddresser : addresser ∈ network.enclaves)
      (hdraft : (enclave.encryptDraft suite message sender stream).result = .ok draft)
      (h : (addresser.addressDraft suite draft recipients stream').result = .ok payload)

/-- What becomes of a payload in circulation. A box may be made on one state and
join another. -/
inductive Circulates (first : Payload) : Payload → Prop
  | first : Circulates first first
  | transport {payload decoded} (h : Circulates first payload)
      (hdecode : Payload.decode payload.encode = .ok decoded) : Circulates first decoded
  | add {payload state enclave recipient stream box} (h : Circulates first payload)
      (hstate : Circulates first state) (henclave : enclave ∈ network.enclaves)
      (hbox : (enclave.newBox suite state recipient stream).result = .ok box) :
      Circulates first (payload.addBox recipient box).1

/-- What every state in circulation keeps. -/
structure Keeps (message : Bytes) (key : SymmetricKey) (payload : Payload) : Prop where
  /-- The boxes hold the payload key, and enclaves sealed them. -/
  sealings : ∃ sealings : List Payload.Sealing,
    (∀ sealing ∈ sealings, network.Holds sealing.sealer) ∧
      Payload.Keeps suite message key sealings payload
  /-- The sender sealed one of the boxes. -/
  sender : ∃ recipient box, payload.boxes.find? recipient = some box ∧
    box.sealedBy = payload.sender

variable {network} {message : Bytes} {key : SymmetricKey} {payload first : Payload}
  {enclave : Enclave} {own : PrivateKey} {name recipient : PublicKey} {recipients : List PublicKey}
  {stream : Bytes} {box : KeyBox}

/-! ## Keys of a network -/

theorem holds_of_privateKey (henclave : enclave ∈ network.enclaves)
    (hkey : enclave.ring.privateKey name = .ok own) :
    network.Holds own ∧ suite.publicKey own = name := by
  have hpair := KeyRing.mem_of_privateKey hkey
  exact ⟨⟨enclave, henclave, _, hpair, rfl⟩, (network.paired enclave henclave _ hpair).symm⟩

theorem Holds.apart (h : network.Holds own) : network.Apart own := by
  obtain ⟨enclave, henclave, hown⟩ := h
  rintro held ⟨other, hother, hheld⟩ heq
  exact network.distinct other hother enclave henclave held own hheld hown heq

theorem Apart.consonant (h : network.Apart own) {sealings : List Payload.Sealing}
    (hsealers : ∀ sealing ∈ sealings, network.Holds sealing.sealer) :
    Payload.Consonant suite own sealings := by
  intro sealing hmem heq
  rw [h _ (hsealers sealing hmem) heq.symm]

/-! ## Coming into circulation -/

theorem keeps_of_sealKeys (hsuite : suite.Lawful) (hown : network.Holds own) {nonce : Nonce}
    (hne : recipients ≠ [])
    (h : (Payload.sealKeys suite key own
      (.unaddressed (suite.publicKey own) nonce (suite.sealBody key nonce message))
      recipients stream).result = .ok payload) : network.Keeps message key payload := by
  have hkeeps := (Payload.sound_of_sealKeys hsuite h).keeps _ List.mem_cons_self
  refine ⟨⟨_, ?_, hkeeps⟩, ?_⟩
  · intro sealing hmem
    rw [(Payload.mem_newSealings.1 hmem).2.2]
    exact hown
  · obtain ⟨recipient, hrecipient⟩ := List.exists_mem_of_ne_nil recipients hne
    obtain ⟨box, hfind⟩ :=
      KeyMap.contains_iff_exists.1 ((Payload.contains_of_sealKeys h).2 recipient hrecipient)
    have hsender : payload.sender = suite.publicKey own := by
      refine Payload.sealKeys_induction
        (P := fun payload => payload.sender = suite.publicKey own) ?_ rfl h
      intro payload recipient box hsender hmem _
      rw [Payload.addBox_of_not_contains hmem]
      exact hsender
    have hholds := Payload.sealedBy_of_sealKeys h recipient box hfind
    exact ⟨recipient, box, hfind, hholds.sealedBy_eq.trans hsender.symm⟩

/-- A sealed payload keeps to the payload key that was drawn for it. -/
theorem Sends.keeps (h : network.Sends message payload) (hsuite : suite.Lawful) :
    ∃ key, network.Keeps message key payload := by
  cases h with
  | sealed henclave h =>
    obtain ⟨hne, own, hown, h⟩ := Enclave.encrypt_cases h
    obtain ⟨key, nonce, rest, h⟩ := Payload.encrypt_cases h
    exact ⟨key, keeps_of_sealKeys hsuite (holds_of_privateKey henclave hown).1 hne h⟩
  | drafted henclave haddresser hdraft h =>
    obtain ⟨own, hown, hdraft⟩ := Enclave.encryptDraft_cases hdraft
    obtain ⟨hne, held, hheld, h⟩ := Enclave.addressDraft_cases h
    have hown := (holds_of_privateKey henclave hown).1
    obtain ⟨hheld, hname⟩ := holds_of_privateKey haddresser hheld
    -- The enclave that addresses the draft holds the key that sealed it.
    obtain rfl := hown.apart held hheld (hname.trans (Draft.sender_of_encrypt hdraft))
    obtain ⟨key, nonce, rest, h⟩ := Payload.encrypt_address_cases hsuite.opensBoxes hdraft h
    exact ⟨key, keeps_of_sealKeys hsuite hown hne h⟩

/-! ## In circulation -/

theorem Keeps.recoverKey (h : network.Keeps message key payload) (hsuite : suite.Lawful)
    (hown : network.Apart own) {route : PublicKey × KeyBox}
    (hroute : payload.route? (suite.publicKey own) = some route) :
    Payload.recoverKey suite payload own = .ok key := by
  obtain ⟨sealings, hsealers, hkeeps⟩ := h.sealings
  exact hkeeps.recoverKey_of_route? hsuite (hown.consonant hsealers) hroute

/-- Whatever name a payload has, there is a route for its holder. -/
theorem Keeps.exists_route? (h : network.Keeps message key payload)
    (hname : payload.Names name) : ∃ route, payload.route? name = some route := by
  rcases hname with rfl | ⟨addressee, box, hfind, rfl | rfl⟩
  · obtain ⟨recipient, box, hfind, hsealed⟩ := h.sender
    exact Payload.route?_isSome hfind hsealed
  · exact ⟨_, Payload.route?_of_find? hfind⟩
  · exact Payload.route?_isSome hfind rfl

/-- What an enclave of the network makes a box with is the payload key. -/
theorem Keeps.newBox_cases (h : network.Keeps message key payload) (hsuite : suite.Lawful)
    (henclave : enclave ∈ network.enclaves)
    (hbox : (enclave.newBox suite payload recipient stream).result = .ok box) :
    ∃ own, network.Holds own ∧ Payload.recoverKey suite payload own = .ok key ∧
      box.Holds suite key own recipient := by
  obtain ⟨name, own, hname, hkey, hbox⟩ :=
    Enclave.newBox_cases (network.running enclave henclave) hbox
  obtain ⟨hown, rfl⟩ := holds_of_privateKey henclave hkey
  obtain ⟨route, hroute⟩ := h.exists_route? hname
  have hrecover := h.recoverKey hsuite hown.apart hroute
  obtain ⟨recovered, hrecovered, hholds⟩ := Payload.newBox_holds hbox
  rw [hrecover] at hrecovered
  cases hrecovered
  exact ⟨own, hown, hrecover, hholds⟩

theorem Keeps.addBox (h : network.Keeps message key payload) (hown : network.Holds own)
    (hbox : box.Holds suite key own recipient) :
    network.Keeps message key (payload.addBox recipient box).1 := by
  obtain ⟨sealings, hsealers, hkeeps⟩ := h.sealings
  obtain ⟨present, found, hfind, hsealed⟩ := h.sender
  constructor
  · refine ⟨⟨recipient, box, own⟩ :: sealings, List.forall_mem_cons.2 ⟨hown, hsealers⟩, ?_⟩
    exact (hkeeps.mono (List.subset_cons_self _ _)).addBox List.mem_cons_self hbox
  · cases hmem : payload.boxes.contains recipient with
    | true =>
      rw [Payload.addBox_of_contains hmem]
      exact ⟨present, found, hfind, hsealed⟩
    | false =>
      refine ⟨present, found, ?_, ?_⟩
      · have hne : recipient ≠ present := by
          rintro rfl
          rw [KeyMap.contains_eq_false_iff.1 hmem] at hfind
          cases hfind
        rw [Payload.addBox_of_not_contains hmem, KeyMap.find?_insert, if_neg hne]
        exact hfind
      · rw [Payload.addBox_of_not_contains hmem]
        exact hsealed

theorem Circulates.keeps (h : network.Circulates first payload) (hsuite : suite.Lawful)
    (hfirst : network.Keeps message key first) : network.Keeps message key payload := by
  induction h with
  | first => exact hfirst
  | transport h hdecode ih =>
    obtain ⟨sealings, -, hkeeps⟩ := ih.sealings
    rw [Payload.decode_encode, hkeeps.listed.settle_eq] at hdecode
    cases hdecode
    exact ih
  | add h hstate henclave hbox ih ihstate =>
    obtain ⟨own, hown, -, hholds⟩ := ihstate.newBox_cases hsuite henclave hbox
    exact ih.addBox hown hholds

/-! ## Making a box -/

/-- An enclave that is involved needs nothing more for a box than a nonce. -/
theorem Keeps.exists_newBox (h : network.Keeps message key payload) (hsuite : suite.Lawful)
    (henclave : enclave ∈ network.enclaves) (hinvolved : enclave.Involved payload)
    (hzero : recipient ≠ .zero) (hstream : 24 ≤ stream.length) :
    ∃ box, (enclave.newBox suite payload recipient stream).result = .ok box := by
  obtain ⟨name, hopener⟩ := Enclave.exists_opener? hinvolved
  obtain ⟨hname, hheld⟩ := Enclave.names_of_opener? hopener
  obtain ⟨own, hkey⟩ := KeyRing.exists_privateKey hheld
  obtain ⟨hown, rfl⟩ := holds_of_privateKey henclave hkey
  obtain ⟨route, hroute⟩ := h.exists_route? hname
  have hrecover := h.recoverKey hsuite hown.apart hroute
  obtain ⟨box, hbox⟩ := Payload.gives_sealKey suite key own recipient hstream
  refine ⟨box, ?_⟩
  rw [Enclave.newBox_of_opener? (network.running enclave henclave) hopener hkey,
    Payload.newBox_of_recoverKey hzero hrecover]
  exact Sampler.result_mapError_eq_ok_iff.2 hbox.result_eq

/-! ## Reading -/

theorem Keeps.decrypt_eq (h : network.Keeps message key payload) {reader : PrivateKey}
    (hkey : Payload.recoverKey suite payload reader = .ok key) :
    payload.decrypt suite reader = .ok message := by
  obtain ⟨sealings, -, hkeeps⟩ := h.sealings
  rw [Payload.decrypt_of_recoverKey hkey]
  exact hkeeps.opens

/-- Who has a box, or cannot be mistaken for an enclave, reads the message over
any route. -/
theorem Keeps.decrypt_of_route? (h : network.Keeps message key payload) (hsuite : suite.Lawful)
    {reader : PrivateKey}
    (hreader : payload.boxes.contains (suite.publicKey reader) = true ∨ network.Apart reader)
    {route : PublicKey × KeyBox} (hroute : payload.route? (suite.publicKey reader) = some route) :
    payload.decrypt suite reader = .ok message := by
  apply h.decrypt_eq
  rcases hreader with haddressed | hapart
  · obtain ⟨sealings, -, hkeeps⟩ := h.sealings
    exact hkeeps.recoverKey_addressee hsuite haddressed
  · exact h.recoverKey hsuite hapart hroute

/-- Who found a route before there is a further box still reads the message then. -/
theorem Keeps.decrypt_addBox (h : network.Keeps message key payload) (hsuite : suite.Lawful)
    (hown : network.Holds own) (hbox : box.Holds suite key own recipient)
    (hmem : payload.boxes.contains recipient = false) {reader : PrivateKey}
    (hreader : payload.boxes.contains (suite.publicKey reader) = true ∨ network.Apart reader)
    {route : PublicKey × KeyBox} (hroute : payload.route? (suite.publicKey reader) = some route) :
    (payload.addBox recipient box).1.decrypt suite reader = .ok message := by
  have hafter := h.addBox hown hbox
  by_cases hnew : suite.publicKey reader = recipient
  · exact hafter.decrypt_eq
      (Payload.recoverKey_addBox_recipient hsuite.opensBoxes hsuite.sharesKeys hmem hnew hbox)
  · have hreader' : (payload.addBox recipient box).1.boxes.contains (suite.publicKey reader) =
        true ∨ network.Apart reader := by
      refine hreader.imp_left fun haddressed => ?_
      rw [Payload.addBox_of_not_contains hmem, KeyMap.contains_insert, haddressed, Bool.or_true]
    -- The new box may come to stand before the one that the reader opened.
    rcases Payload.route?_addBox box hmem hnew with hsame | hmoved
    · exact hafter.decrypt_of_route? hsuite hreader' (hsame.trans hroute)
    · exact hafter.decrypt_of_route? hsuite hreader' hmoved

/-- Whatever way a payload took among enclaves, one of them can make a box if and
only if it holds the private key of a name on the payload; otherwise it fails
and takes no random bytes. With the box the recipient reads the message, and
everyone who read it before still does. -/
theorem newBox_iff_involved (hsuite : suite.Lawful) (hsends : network.Sends message first)
    (hcirculates : network.Circulates first payload) (henclave : enclave ∈ network.enclaves)
    (hzero : recipient ≠ .zero) (hstream : 24 ≤ stream.length) :
    ((∃ box, (enclave.newBox suite payload recipient stream).result = .ok box) ↔
      enclave.Involved payload) ∧
    (¬enclave.Involved payload →
      enclave.newBox suite payload recipient stream =
        ⟨.error (.crypto .decryption), stream, []⟩) ∧
    ∀ box, (enclave.newBox suite payload recipient stream).result = .ok box →
      payload.boxes.contains recipient = false →
      (∀ reader, suite.publicKey reader = recipient →
        (payload.addBox recipient box).1.decrypt suite reader = .ok message) ∧
      ∀ reader text, payload.decrypt suite reader = .ok text →
        (payload.boxes.contains (suite.publicKey reader) = true ∨ network.Apart reader) →
        text = message ∧ (payload.addBox recipient box).1.decrypt suite reader = .ok message := by
  obtain ⟨key, hkeeps⟩ := hsends.keeps hsuite
  replace hkeeps := hcirculates.keeps hsuite hkeeps
  have hrunning := network.running enclave henclave
  refine ⟨⟨?_, ?_⟩, ?_, ?_⟩
  · rintro ⟨box, hbox⟩
    obtain ⟨name, own, hname, hkey, -⟩ := Enclave.newBox_cases hrunning hbox
    exact ⟨name, hname, KeyRing.contains_of_privateKey hkey⟩
  · exact fun hinvolved => hkeeps.exists_newBox hsuite henclave hinvolved hzero hstream
  · intro hinvolved
    rw [Enclave.newBox_of_not_involved suite recipient hrunning hinvolved]
    rfl
  · intro box hbox hmem
    obtain ⟨own, hown, -, hholds⟩ := hkeeps.newBox_cases hsuite henclave hbox
    constructor
    · intro reader hreader
      exact (hkeeps.addBox hown hholds).decrypt_eq
        (Payload.recoverKey_addBox_recipient hsuite.opensBoxes hsuite.sharesKeys hmem hreader
          hholds)
    · intro reader text htext hreader
      obtain ⟨route, hroute⟩ := Payload.exists_route?_of_decrypt htext
      rw [hkeeps.decrypt_of_route? hsuite hreader hroute] at htext
      exact ⟨(Except.ok.inj htext).symm,
        hkeeps.decrypt_addBox hsuite hown hholds hmem hreader hroute⟩

/-- The enclave of one of four parties. It forwards to nobody. -/
def alone (own : PrivateKey) : Enclave :=
  .start
    { pairs := [Suite.quartet.keyPair own]
      forwarding := .empty
      pairs_ne_nil := List.cons_ne_nil _ _
      nodup := by simp }

theorem holds_alone {own held : PrivateKey} (h : (alone own).Holds held) : held = own := by
  obtain ⟨pair, hmem, rfl⟩ := h
  rw [List.mem_singleton.1 hmem]
  rfl

theorem privateKey_alone (own : PrivateKey) :
    (alone own).ring.privateKey (Suite.quartet.publicKey own) = .ok own := by
  simp [alone, Enclave.start, KeyRing.privateKey, Suite.keyPair]

/-- The four parties, each with an enclave of its own. -/
def neighbours : Network .quartet where
  enclaves := parties.map alone
  running enclave henclave := by
    obtain ⟨own, -, rfl⟩ := List.mem_map.1 henclave
    rfl
  paired enclave henclave pair hpair := by
    obtain ⟨own, -, rfl⟩ := List.mem_map.1 henclave
    rw [List.mem_singleton.1 hpair]
    rfl
  distinct enclave henclave other hother a b ha hb := by
    obtain ⟨own, hown, rfl⟩ := List.mem_map.1 henclave
    obtain ⟨held, hheld, rfl⟩ := List.mem_map.1 hother
    have hkeys : ∀ x ∈ parties, ∀ y ∈ parties,
        Suite.quartet.publicKey x = Suite.quartet.publicKey y → x = y := by decide +kernel
    rw [holds_alone ha, holds_alone hb]
    exact hkeys own hown held hheld

/-- The letter with the box that its reader made for the third party. -/
def relayed : Payload :=
  (letter.addBox (partyKey 3) Payload.letterBox).1

theorem circulates_relayed :
    neighbours.Sends [104, 105] letter ∧ neighbours.Circulates letter relayed := by
  have hbox : (Payload.newBox .quartet letter (party 2) (partyKey 3)
      (List.replicate 24 8)).result = .ok Payload.letterBox := by
    unfold Payload.letterBox
    exact eq_ok_get _
  have hopener : (alone (party 2)).opener? letter = some (partyKey 2) := by decide +kernel
  have hfirst : (alone (party 1)).ring.privateKey (partyKey 1) = .ok (party 1) :=
    privateKey_alone _
  have hsecond : (alone (party 2)).ring.privateKey (partyKey 2) = .ok (party 2) :=
    privateKey_alone _
  have hsealed : ((alone (party 1)).encrypt .quartet [104, 105] (partyKey 1) [partyKey 2]
      (List.replicate 80 7)).result = .ok letter := by
    rw [Enclave.encrypt_of_privateKey rfl (List.cons_ne_nil _ _) hfirst]
    exact Sampler.result_mapError_eq_ok_iff.2 encrypt_letter
  have hmade : ((alone (party 2)).newBox .quartet letter (partyKey 3)
      (List.replicate 24 8)).result = .ok Payload.letterBox := by
    rw [Enclave.newBox_of_opener? rfl hopener hsecond]
    exact Sampler.result_mapError_eq_ok_iff.2 hbox
  exact ⟨.sealed (List.mem_map_of_mem List.mem_cons_self) hsealed,
    .add .first .first (List.mem_map_of_mem (by decide +kernel)) hmade⟩

/-- The third party got its box from the second one, and makes one for the
fourth, which could not have made any. -/
theorem newBox_iff_involved_relayed :
    (Payload.encrypt .standard [104, 105] (party 1) [Suite.standard.publicKey (party 2)]
        (List.replicate 80 7)).result = .ok letter ∧
      Suite.quartet.Lawful ∧ neighbours.Sends [104, 105] letter ∧
      neighbours.Circulates letter relayed ∧ alone (party 3) ∈ neighbours.enclaves ∧
      alone (party 4) ∈ neighbours.enclaves ∧ partyKey 4 ≠ .zero ∧
      (alone (party 4)).newBox .quartet relayed (partyKey 4) (List.replicate 24 9) =
        ⟨.error (.crypto .decryption), List.replicate 24 9, []⟩ ∧
      ∃ box, ((alone (party 3)).newBox .quartet relayed (partyKey 4)
          (List.replicate 24 9)).result = .ok box ∧
        (relayed.addBox (partyKey 4) box).1.decrypt .quartet (party 4) = .ok [104, 105] ∧
        (relayed.addBox (partyKey 4) box).1.decrypt .quartet (party 1) = .ok [104, 105] := by
  obtain ⟨hsends, hcirculates⟩ := circulates_relayed
  have hsuite : Suite.quartet.Lawful := Suite.lawful_circle _
  have henclave : alone (party 3) ∈ neighbours.enclaves := List.mem_map_of_mem (by decide +kernel)
  have hother : alone (party 4) ∈ neighbours.enclaves := List.mem_map_of_mem (by decide +kernel)
  have hzero : partyKey 4 ≠ .zero := by decide +kernel
  have hstream : 24 ≤ (List.replicate 24 (9 : UInt8)).length := by simp
  have hnames : relayed.boxes.contains (partyKey 3) = true ∧
      relayed.boxes.contains (partyKey 4) = false ∧
      (alone (party 3)).ring.contains (partyKey 3) = true ∧
      (alone (party 4)).opener? relayed = none ∧
      relayed.decrypt .quartet (party 1) = .ok [104, 105] := by decide +kernel
  obtain ⟨haddressed, hnew, hheld, hopener, hread⟩ := hnames
  have hinvolved : (alone (party 3)).Involved relayed := by
    obtain ⟨box, hfind⟩ := KeyMap.contains_iff_exists.1 haddressed
    exact ⟨partyKey 3, .inr ⟨partyKey 3, box, hfind, .inl rfl⟩, hheld⟩
  have hstranger : ¬(alone (party 4)).Involved relayed := by
    intro h
    obtain ⟨name, hname⟩ := Enclave.exists_opener? h
    rw [hopener] at hname
    cases hname
  have hapart : neighbours.Apart (party 1) :=
    Holds.apart ⟨alone (party 1), List.mem_map_of_mem (by decide +kernel), _,
      List.mem_cons_self, rfl⟩
  obtain ⟨hiff, -, hreaders⟩ :=
    newBox_iff_involved hsuite hsends hcirculates henclave hzero hstream
  obtain ⟨-, hrefused, -⟩ := newBox_iff_involved hsuite hsends hcirculates hother hzero hstream
  obtain ⟨box, hbox⟩ := hiff.2 hinvolved
  obtain ⟨hrecipient, hearlier⟩ := hreaders box hbox hnew
  exact ⟨encrypt_letter_standard, hsuite, hsends, hcirculates, henclave, hother, hzero,
    hrefused hstranger, box, hbox, hrecipient (party 4) rfl,
    (hearlier (party 1) _ hread (.inr hapart)).2⟩

end Network

end Envelope
