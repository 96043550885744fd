import Envelope.Proofs.Circle
import Envelope.Proofs.Drafts
import Envelope.Proofs.Transport

/-!
# Payloads with a history

A payload is sealed by its sender and then grows: parties add recipients, hand
in boxes that they made on this or on an older state of the payload, and send it
around. The invariant ties everything to the payload key that was drawn at the
start: every box ever made holds this key, and it opens the body of every state.
The party that acts recovers the key over one of two routes, and which box it
opens may change with every box that is added.
-/

namespace Envelope.Payload

/-- A box as it was made: for whom, and with which private key. -/
structure Sealing where
  recipient : PublicKey
  box : KeyBox
  sealer : PrivateKey

/-- A payload together with what led to it. -/
structure History where
  current : Payload
  earlier : List Payload
  /-- All boxes made so far, added or not. -/
  sealings : List Sealing

/-- The boxes that one party put into a payload next to those it had. -/
def newSealings (boxes : KeyMap KeyBox) (payload : Payload) (sealer : PrivateKey) : List Sealing :=
  (payload.boxes.entries.filter fun entry => !boxes.contains entry.1).map fun entry =>
    ⟨entry.1, entry.2, sealer⟩

variable (suite : Suite)

/-- How a history begins: with a message sealed at once or as a draft. -/
inductive Begins (message : Bytes) : History → Prop
  | sealed {sender recipients stream payload}
      (h : (encrypt suite message sender recipients stream).result = .ok payload) :
      Begins message ⟨payload, [], newSealings .empty payload sender⟩
  | drafted {sender recipients stream stream' draft payload}
      (hdraft : (Draft.encrypt suite message sender stream).result = .ok draft)
      (h : (draft.address suite sender recipients stream').result = .ok payload) :
      Begins message ⟨payload, [], newSealings .empty payload sender⟩

/-- How a history goes on. Boxes may be made on every state that there was, and
may be added at any later time. -/
inductive Step : History → History → Prop
  | extend {history own recipient stream payload}
      (h : (addRecipient suite history.current own recipient stream).result = .ok payload) :
      Step history ⟨payload, history.current :: history.earlier,
        newSealings history.current.boxes payload own ++ history.sealings⟩
  | make {history payload own recipient stream box}
      (hstate : payload ∈ history.current :: history.earlier)
      (h : (newBox suite payload own recipient stream).result = .ok box) :
      Step history { history with sealings := ⟨recipient, box, own⟩ :: history.sealings }
  | add {history sealing} (h : sealing ∈ history.sealings) :
      Step history ⟨(history.current.addBox sealing.recipient sealing.box).1,
        history.current :: history.earlier, history.sealings⟩
  | transport {history payload} (h : decode history.current.encode = .ok payload) :
      Step history ⟨payload, history.current :: history.earlier, history.sealings⟩

inductive Reached (message : Bytes) : History → Prop
  | start {history} (h : Begins suite message history) : Reached message history
  | step {before after} (h : Reached message before) (hstep : Step suite before after) :
      Reached message after

/-- A private key computes the shared keys of everyone who made a box under its
public key. -/
def Consonant (own : PrivateKey) (sealings : List Sealing) : Prop :=
  ∀ sealing ∈ sealings, suite.publicKey own = suite.publicKey sealing.sealer →
    suite.sharedKey sealing.recipient own = suite.sharedKey sealing.recipient sealing.sealer

/-- Those who made boxes under one public key compute the same shared keys with
the recipients of these boxes. -/
def Coherent (sealings : List Sealing) : Prop :=
  ∀ sealing ∈ sealings, Consonant suite sealing.sealer sealings

/-- What every state of a history keeps. -/
structure Keeps (message : Bytes) (key : SymmetricKey) (sealings : List Sealing)
    (payload : Payload) : Prop where
  opens : openBody suite payload key = .ok message
  made : ∀ recipient box, payload.boxes.find? recipient = some box →
    ∃ sealer, ⟨recipient, box, sealer⟩ ∈ sealings ∧ box.Holds suite key sealer recipient
  listed : payload.Listed

/-- All states keep to one payload key, and all boxes hold it. -/
structure Sound (message : Bytes) (key : SymmetricKey) (history : History) : Prop where
  keeps : ∀ payload ∈ history.current :: history.earlier,
    Keeps suite message key history.sealings payload
  holds : ∀ sealing ∈ history.sealings,
    sealing.box.Holds suite key sealing.sealer sealing.recipient

variable {suite : Suite} {message : Bytes} {key : SymmetricKey} {own : PrivateKey}
  {recipient : PublicKey} {box : KeyBox} {payload : Payload} {sealings more : List Sealing}
  {history before after : History} {stream : Bytes}

theorem mem_newSealings {boxes : KeyMap KeyBox} {sealing : Sealing} :
    sealing ∈ newSealings boxes payload own ↔
      payload.boxes.find? sealing.recipient = some sealing.box ∧
        boxes.contains sealing.recipient = false ∧ sealing.sealer = own := by
  obtain ⟨recipient, box, sealer⟩ := sealing
  simp only [newSealings, List.mem_map, List.mem_filter, ← KeyMap.mem_entries_iff]
  constructor
  · rintro ⟨entry, ⟨hmem, hnew⟩, hsealing⟩
    cases hsealing
    exact ⟨hmem, by simpa using hnew, rfl⟩
  · rintro ⟨hmem, hnew, rfl⟩
    exact ⟨(recipient, box), ⟨hmem, by simpa using hnew⟩, rfl⟩

theorem newSealings_self : newSealings payload.boxes payload own = [] := by
  apply List.eq_nil_iff_forall_not_mem.2
  intro sealing hmem
  obtain ⟨hfind, hnew, -⟩ := mem_newSealings.1 hmem
  rw [KeyMap.contains_eq_false_iff.1 hnew] at hfind
  cases hfind

theorem newSealings_addBox (hmem : payload.boxes.contains recipient = false) :
    newSealings payload.boxes (payload.addBox recipient box).1 own = [⟨recipient, box, own⟩] := by
  have hold : payload.boxes.entries.filter (fun entry => !payload.boxes.contains entry.1) = [] := by
    apply List.filter_eq_nil_iff.2
    intro entry hentry
    have hfound := KeyMap.contains_iff_exists.2 ⟨_, KeyMap.mem_entries_iff.1 hentry⟩
    simp [hfound]
  obtain ⟨front, back, hentries, hinsert⟩ := KeyMap.insert_entries_eq_append hmem box
  rw [hentries, List.filter_append, List.append_eq_nil_iff] at hold
  rw [newSealings, addBox_of_not_contains hmem, hinsert, List.filter_append,
    List.filter_cons_of_pos (by simp [hmem]), hold.1, hold.2]
  rfl

theorem Coherent.mono (h : Coherent suite more) (hsub : sealings ⊆ more) :
    Coherent suite sealings := by
  intro sealing hmem other hother
  exact h sealing (hsub hmem) other (hsub hother)

/-- Sealers who can be told apart by their public keys are coherent. -/
theorem coherent_of_sealers (h : ∀ sealing ∈ sealings, ∀ other ∈ sealings,
    suite.publicKey sealing.sealer = suite.publicKey other.sealer →
      sealing.sealer = other.sealer) : Coherent suite sealings := by
  intro sealing hmem other hother heq
  rw [h sealing hmem other hother heq]

theorem Keeps.mono (h : Keeps suite message key sealings payload) (hsub : sealings ⊆ more) :
    Keeps suite message key more payload := by
  refine ⟨h.opens, ?_, h.listed⟩
  intro recipient box hfind
  obtain ⟨sealer, hmem, hbox⟩ := h.made recipient box hfind
  exact ⟨sealer, hsub hmem, hbox⟩

/-! ## Recovering the payload key -/

theorem Keeps.recoverKey_addressee (h : Keeps suite message key sealings payload)
    (hsuite : suite.Lawful) (hown : payload.boxes.contains (suite.publicKey own) = true) :
    recoverKey suite payload own = .ok key := by
  obtain ⟨box, hfind⟩ := KeyMap.contains_iff_exists.1 hown
  obtain ⟨sealer, -, hbox⟩ := h.made _ box hfind
  apply recoverKey_eq_ok_iff.2
  exact ⟨box.sealedBy, box, route?_of_find? hfind,
    hbox.openKey?_recipient hsuite.opensBoxes hsuite.sharesKeys rfl⟩

/-- Over whichever route a party goes, it recovers the payload key. -/
theorem Keeps.recoverKey_of_route? (h : Keeps suite message key sealings payload)
    (hsuite : suite.Lawful) (hown : Consonant suite own sealings) {route : PublicKey × KeyBox}
    (hroute : payload.route? (suite.publicKey own) = some route) :
    recoverKey suite payload own = .ok key := by
  obtain ⟨other, box⟩ := route
  cases hself : payload.boxes.find? (suite.publicKey own) with
  | some found =>
    exact h.recoverKey_addressee hsuite (KeyMap.contains_iff_exists.2 ⟨found, hself⟩)
  | none =>
    obtain ⟨hfind, hsealed⟩ := route?_spec hself hroute
    obtain ⟨sealer, hmem, hbox⟩ := h.made other box hfind
    have hshared : suite.sharedKey other own = suite.sharedKey other sealer :=
      hown _ hmem (hsealed.symm.trans hbox.sealedBy_eq)
    apply recoverKey_eq_ok_iff.2
    exact ⟨other, box, hroute, hbox.openKey?_of_sharedKey_eq hsuite.opensBoxes hshared⟩

theorem Keeps.eq_of_recoverKey (h : Keeps suite message key sealings payload)
    (hsuite : suite.Lawful) (hown : Consonant suite own sealings) {recovered : SymmetricKey}
    (hkey : recoverKey suite payload own = .ok recovered) : recovered = key := by
  obtain ⟨other, box, hroute, -⟩ := recoverKey_eq_ok_iff.1 hkey
  rw [h.recoverKey_of_route? hsuite hown hroute] at hkey
  exact (Except.ok.inj hkey).symm

/-! ## Beginnings -/

theorem encrypt_cases {sender : PrivateKey} {recipients : List PublicKey}
    (h : (encrypt suite message sender recipients stream).result = .ok payload) :
    ∃ key nonce rest, (sealKeys suite key sender
      (unaddressed (suite.publicKey sender) nonce (suite.sealBody key nonce message))
      recipients rest).result = .ok payload := by
  unfold encrypt at h
  obtain ⟨-, -, h⟩ := Sampler.result_bind_eq_ok_iff.1 h
  obtain ⟨key, -, h⟩ := Sampler.result_bind_eq_ok_iff.1 h
  obtain ⟨nonce, -, h⟩ := Sampler.result_bind_eq_ok_iff.1 h
  obtain ⟨body, hbody, h⟩ := Sampler.result_bind_eq_ok_iff.1 h
  cases hbody
  exact ⟨key, nonce, _, h⟩

theorem encrypt_address_cases (hsuite : suite.OpensBoxes) {sender : PrivateKey}
    {recipients : List PublicKey} {stream' : Bytes} {draft : Draft}
    (hdraft : (Draft.encrypt suite message sender stream).result = .ok draft)
    (h : (draft.address suite sender recipients stream').result = .ok payload) :
    ∃ key nonce rest, (sealKeys suite key sender
      (unaddressed (suite.publicKey sender) nonce (suite.sealBody key nonce message))
      recipients rest).result = .ok payload := by
  obtain ⟨key, nonce, rfl⟩ := Draft.encrypt_cases hdraft
  unfold Draft.address at h
  obtain ⟨-, -, h⟩ := Sampler.result_bind_eq_ok_iff.1 h
  rw [openKey?_sealBox hsuite rfl] at h
  exact ⟨key, nonce, _, h⟩

theorem listed_of_sealKeys {sealer : PrivateKey} {sender : PublicKey} {nonce : Nonce} {body : Bytes}
    {recipients : List PublicKey}
    (h : (sealKeys suite key sealer (unaddressed sender nonce body) recipients stream).result =
      .ok payload) : payload.Listed := by
  apply sealKeys_induction ?_ (listed_unaddressed _ _ _) h
  intro payload recipient box hlisted _ _
  exact hlisted.addBox recipient box

theorem sound_of_sealKeys (hsuite : suite.Lawful) {sender : PrivateKey} {nonce : Nonce}
    {recipients : List PublicKey}
    (h : (sealKeys suite key sender
      (unaddressed (suite.publicKey sender) nonce (suite.sealBody key nonce message))
      recipients stream).result = .ok payload) :
    Sound suite message key ⟨payload, [], newSealings .empty payload sender⟩ := by
  have hsealed : SealedBy suite key sender payload := sealedBy_of_sealKeys h
  have hlisted : payload.Listed := listed_of_sealKeys h
  have hopens : openBody suite payload key = .ok message := by
    obtain ⟨-, hnonce, hbody⟩ := frame_of_sealKeys h
    simp [openBody, hnonce, hbody, unaddressed, hsuite.opensBodies key nonce message]
  constructor
  · intro state hstate
    rw [List.mem_singleton.1 hstate]
    refine ⟨hopens, ?_, hlisted⟩
    intro recipient box hfind
    exact ⟨sender, mem_newSealings.2 ⟨hfind, rfl, rfl⟩, hsealed recipient box hfind⟩
  · intro sealing hmem
    obtain ⟨hfind, -, rfl⟩ := mem_newSealings.1 hmem
    exact hsealed _ _ hfind

theorem sound_of_begins (hsuite : suite.Lawful) (h : Begins suite message history) :
    ∃ key, Sound suite message key history := by
  cases h with
  | sealed h =>
    obtain ⟨key, nonce, rest, h⟩ := encrypt_cases h
    exact ⟨key, sound_of_sealKeys hsuite h⟩
  | drafted hdraft h =>
    obtain ⟨key, nonce, rest, h⟩ := encrypt_address_cases hsuite.opensBoxes hdraft h
    exact ⟨key, sound_of_sealKeys hsuite h⟩

/-! ## Steps -/

theorem Step.sealings_subset (h : Step suite before after) : before.sealings ⊆ after.sealings := by
  intro sealing hmem
  cases h with
  | extend h => exact List.mem_append_right _ hmem
  | make hstate h => exact List.mem_cons_of_mem _ hmem
  | add h => exact hmem
  | transport h => exact hmem

theorem Keeps.addBox (h : Keeps suite message key sealings payload) {sealing : Sealing}
    (hmem : sealing ∈ sealings)
    (hbox : sealing.box.Holds suite key sealing.sealer sealing.recipient) :
    Keeps suite message key sealings (payload.addBox sealing.recipient sealing.box).1 := by
  cases hold : payload.boxes.contains sealing.recipient with
  | true =>
    rw [addBox_of_contains hold]
    exact h
  | false =>
    refine ⟨?_, ?_, h.listed.addBox _ _⟩
    · rw [addBox_of_not_contains hold]
      exact h.opens
    · intro recipient box hfind
      rw [addBox_of_not_contains hold, KeyMap.find?_insert] at hfind
      split at hfind
      · rename_i heq
        cases hfind
        exact ⟨sealing.sealer, heq ▸ hmem, heq ▸ hbox⟩
      · exact h.made recipient box hfind

theorem Sound.make (h : Sound suite message key history) {sealing : Sealing}
    (hbox : sealing.box.Holds suite key sealing.sealer sealing.recipient) :
    Sound suite message key { history with sealings := sealing :: history.sealings } := by
  constructor
  · intro payload hstate
    exact (h.keeps payload hstate).mono (List.subset_cons_self _ _)
  · exact List.forall_mem_cons.2 ⟨hbox, h.holds⟩

theorem Sound.move (h : Sound suite message key history)
    (hkeeps : Keeps suite message key history.sealings payload) :
    Sound suite message key ⟨payload, history.current :: history.earlier, history.sealings⟩ := by
  constructor
  · exact List.forall_mem_cons.2 ⟨hkeeps, h.keeps⟩
  · exact h.holds

/-- What a party makes a new box with is the payload key. -/
theorem Sound.newBox_holds (h : Sound suite message key history) (hsuite : suite.Lawful)
    (hstate : payload ∈ history.current :: history.earlier)
    (hown : Consonant suite own history.sealings)
    (hbox : (newBox suite payload own recipient stream).result = .ok box) :
    box.Holds suite key own recipient := by
  obtain ⟨recovered, hkey, hholds⟩ := Payload.newBox_holds hbox
  rw [(h.keeps payload hstate).eq_of_recoverKey hsuite hown hkey] at hholds
  exact hholds

theorem Sound.step (h : Sound suite message key before) (hsuite : suite.Lawful)
    (hstep : Step suite before after) (hcoherent : Coherent suite after.sealings) :
    Sound suite message key after := by
  cases hstep with
  | @extend own recipient stream extended hextend =>
    have hkeeps := h.keeps _ List.mem_cons_self
    rcases addRecipient_cases hextend with ⟨hmem, rfl⟩ | ⟨hmem, box, recovered, hkey, hbox, rfl⟩
    · rw [newSealings_self]
      exact h.move hkeeps
    · rw [newSealings_addBox hmem] at hcoherent ⊢
      have hown : Consonant suite own before.sealings := by
        intro sealing hold
        exact hcoherent ⟨recipient, box, own⟩ (by simp) sealing (by simp [hold])
      rw [hkeeps.eq_of_recoverKey hsuite hown hkey] at hbox
      have hmade : Sound suite message key
          { before with sealings := ⟨recipient, box, own⟩ :: before.sealings } := h.make hbox
      exact hmade.move ((hmade.keeps _ List.mem_cons_self).addBox List.mem_cons_self hbox)
  | @make payload own recipient stream box hstate hbox =>
    have hown : Consonant suite own before.sealings := by
      intro sealing hold
      exact hcoherent ⟨recipient, box, own⟩ (by simp) sealing (by simp [hold])
    exact h.make (h.newBox_holds hsuite hstate hown hbox)
  | add hmem =>
    exact h.move ((h.keeps _ List.mem_cons_self).addBox hmem (h.holds _ hmem))
  | transport hdecode =>
    have hkeeps := h.keeps _ List.mem_cons_self
    rw [decode_encode, hkeeps.listed.settle_eq] at hdecode
    cases hdecode
    exact h.move hkeeps

theorem Reached.sound (h : Reached suite message history) (hsuite : suite.Lawful)
    (hcoherent : Coherent suite history.sealings) : ∃ key, Sound suite message key history := by
  induction h with
  | start h => exact sound_of_begins hsuite h
  | step h hstep ih =>
    obtain ⟨key, hsound⟩ := ih (hcoherent.mono hstep.sealings_subset)
    exact ⟨key, hsound.step hsuite hstep hcoherent⟩

/-! ## Who reads the message -/

/-- Who has a box and who sealed one of the boxes reads the message, in every
order of steps, and who is named by no box reads nothing. The histories are
those in which parties that sealed under one public key are interchangeable. -/
theorem Reached.readers (hsuite : suite.Lawful) (h : Reached suite message history)
    (hcoherent : Coherent suite history.sealings) :
    (∀ reader, history.current.boxes.contains (suite.publicKey reader) = true →
      decrypt suite history.current reader = .ok message) ∧
    (∀ recipient box, history.current.boxes.find? recipient = some box →
      (∃ sealer, ⟨recipient, box, sealer⟩ ∈ history.sealings) ∧
      ∀ sealer, ⟨recipient, box, sealer⟩ ∈ history.sealings →
        box.sealedBy = suite.publicKey sealer ∧
        decrypt suite history.current sealer = .ok message) ∧
    (∀ reader, history.current.boxes.contains (suite.publicKey reader) = false →
      (∀ recipient box, history.current.boxes.find? recipient = some box →
        box.sealedBy ≠ suite.publicKey reader) →
      decrypt suite history.current reader = .error .decryption) ∧
    decode history.current.encode = .ok history.current := by
  obtain ⟨key, hsound⟩ := h.sound hsuite hcoherent
  have hkeeps := hsound.keeps _ List.mem_cons_self
  refine ⟨?_, ?_, ?_, ?_⟩
  · intro reader hown
    rw [decrypt_of_recoverKey (hkeeps.recoverKey_addressee hsuite hown)]
    exact hkeeps.opens
  · intro recipient box hfind
    constructor
    · obtain ⟨sealer, hmem, -⟩ := hkeeps.made recipient box hfind
      exact ⟨sealer, hmem⟩
    · intro sealer hmem
      have hsealed : box.sealedBy = suite.publicKey sealer := (hsound.holds _ hmem).sealedBy_eq
      obtain ⟨route, hroute⟩ := route?_isSome hfind hsealed
      have hkey := hkeeps.recoverKey_of_route? hsuite (hcoherent _ hmem) hroute
      rw [decrypt_of_recoverKey hkey]
      exact ⟨hsealed, hkeeps.opens⟩
  · intro reader hown hsealed
    have hkey : recoverKey suite history.current reader = .error .decryption :=
      recoverKey_of_route?_eq_none (route?_eq_none hown hsealed)
    simp [decrypt, hkey, bind, Except.bind]
  · rw [decode_encode, hkeeps.listed.settle_eq]

/-- A box that the second party makes for the third one out of `letter`. -/
@[irreducible] def letterBox : KeyBox :=
  (newBox .quartet letter (party 2) (partyKey 3) (List.replicate 24 8)).result.toOption.get
    (by decide +kernel)

/-- The letter after its sender added a point of no party. -/
@[irreducible] def longerLetter : Payload :=
  (addRecipient .quartet letter (party 1) (point 9) (List.replicate 24 9)).result.toOption.get
    (by decide +kernel)

/-- The box joins the letter late. -/
def letterHistory : History where
  current := (longerLetter.addBox (partyKey 3) letterBox).1
  earlier := [longerLetter, letter]
  sealings := newSealings letter.boxes longerLetter (party 1) ++
    ⟨partyKey 3, letterBox, party 2⟩ :: newSealings .empty letter (party 1)

theorem reached_letterHistory : Reached .quartet [104, 105] letterHistory := by
  have hbox : (newBox .quartet letter (party 2) (partyKey 3)
      (List.replicate 24 8)).result = .ok letterBox := by
    unfold letterBox
    exact eq_ok_get _
  have hlonger : (addRecipient .quartet letter (party 1) (point 9)
      (List.replicate 24 9)).result = .ok longerLetter := by
    unfold longerLetter
    exact eq_ok_get _
  have hstart := Reached.start (Begins.sealed encrypt_letter)
  have hmade := hstart.step (.make List.mem_cons_self hbox)
  have hextended := hmade.step (.extend hlonger)
  have hadded := hextended.step (.add (List.mem_append_right _ List.mem_cons_self))
  exact hadded

theorem readers_letterHistory :
    (encrypt .standard [104, 105] (party 1) [Suite.standard.publicKey (party 2)]
        (List.replicate 80 7)).result = .ok letter ∧
      Suite.quartet.Lawful ∧ Reached .quartet [104, 105] letterHistory ∧
      Coherent .quartet letterHistory.sealings ∧
      decrypt .quartet letterHistory.current (party 1) = .ok [104, 105] ∧
      decrypt .quartet letterHistory.current (party 2) = .ok [104, 105] ∧
      decrypt .quartet letterHistory.current (party 3) = .ok [104, 105] ∧
      decrypt .quartet letterHistory.current (party 4) = .error .decryption ∧
      decode letterHistory.current.encode = .ok letterHistory.current := by
  have hsuite : Suite.quartet.Lawful := Suite.lawful_circle _
  have hcoherent : Coherent .quartet letterHistory.sealings :=
    coherent_of_sealers (by decide +kernel)
  have hboxes : letterHistory.current.boxes.contains (partyKey 2) = true ∧
      letterHistory.current.boxes.contains (partyKey 3) = true ∧
      letterHistory.current.boxes.contains (partyKey 4) = false ∧
      (∀ entry ∈ letterHistory.current.boxes.entries, entry.2.sealedBy ≠ partyKey 4) ∧
      ∃ sealing ∈ letterHistory.sealings, sealing.sealer = party 1 ∧
        letterHistory.current.boxes.find? sealing.recipient = some sealing.box := by
    decide +kernel
  obtain ⟨hsecond, hthird, hfourth, hsealed, sealing, hmem, hsealer, hfind⟩ := hboxes
  obtain ⟨haddressees, hsealers, hothers, hdecode⟩ :=
    Reached.readers hsuite reached_letterHistory hcoherent
  have hfirst := ((hsealers _ _ hfind).2 sealing.sealer hmem).2
  rw [hsealer] at hfirst
  refine ⟨encrypt_letter_standard, hsuite, reached_letterHistory, hcoherent, hfirst,
    haddressees _ hsecond, haddressees _ hthird, ?_, hdecode⟩
  apply hothers _ hfourth
  intro recipient box hfind
  exact hsealed (recipient, box) (KeyMap.mem_entries_iff.2 hfind)

/-! ## Two private keys with one public key -/

/-- A private key with the public key of the one of all zero bytes. The two
scalars differ by a sign modulo the order of the base point. -/
def twin : PrivateKey :=
  ⟨⟨[0x68, 0x9f, 0xae, 0xe7, 0xd2, 0x18, 0x93, 0xc0, 0xb2, 0xe6, 0xbc, 0x17, 0xf5, 0xce, 0xf7, 0xa6,
    0, 0, 0, 0, 0, 0, 0, 0, 0, 0, 0, 0, 0, 0, 0, 0x40], rfl⟩⟩

/-- A letter to a point that the twins multiply alike. -/
@[irreducible] def twinLetter : Payload :=
  (encrypt (.circle [party 0, twin]) [104, 105] (party 0) [point 9]
    (List.replicate 80 7)).result.toOption.get (by decide +kernel)

/-- The other twin adds a point that they multiply differently. -/
@[irreducible] def twinLonger : Payload :=
  (addRecipient (.circle [party 0, twin]) twinLetter twin (point 2)
    (List.replicate 24 7)).result.toOption.get (by decide +kernel)

/-- Then the first twin, who sealed a box, opens that of the other one. The
shared keys are those of the standard suite. -/
theorem twin_locks_out_sealer :
    (Suite.circle [party 0, twin]).Lawful ∧
      (∀ own ∈ [party 0, twin],
        (Suite.circle [party 0, twin]).publicKey own = Suite.standard.publicKey own ∧
        ∀ recipient ∈ [point 9, point 2],
          Suite.circleKey [party 0, twin] recipient own = Suite.standard.sharedKey recipient own) ∧
      ∃ history, Reached (.circle [party 0, twin]) [104, 105] history ∧
        ∃ sealing ∈ history.sealings,
          history.current.boxes.find? sealing.recipient = some sealing.box ∧
          decrypt (.circle [party 0, twin]) history.current sealing.sealer =
            .error .decryption := by
  have hletter : (encrypt (.circle [party 0, twin]) [104, 105] (party 0) [point 9]
      (List.replicate 80 7)).result = .ok twinLetter := by
    unfold twinLetter
    exact eq_ok_get _
  have hlonger : (addRecipient (.circle [party 0, twin]) twinLetter twin (point 2)
      (List.replicate 24 7)).result = .ok twinLonger := by
    unfold twinLonger
    exact eq_ok_get _
  have hstart := Reached.start (Begins.sealed hletter)
  have hextended := hstart.step (.extend hlonger)
  refine ⟨Suite.lawful_circle _, by decide +kernel, _, hextended, ?_⟩
  decide +kernel

end Envelope.Payload
