import Envelope.Payload

/-!
# Which box a party opens

A box is added to a payload only for a recipient without one, so the entries of
the map are the old ones with one more in between. What a party finds then is
what it found before, unless the new box is one that it looks for. The last part
says when an opened box gives the payload key back.
-/

namespace Envelope

namespace KeyMap

variable {β : Type}

theorem contains_eq_false_iff {m : KeyMap β} {key : PublicKey} :
    m.contains key = false ↔ m.find? key = none := by
  simp [contains]

theorem contains_iff_exists {m : KeyMap β} {key : PublicKey} :
    m.contains key = true ↔ ∃ value, m.find? key = some value := by
  simp [contains, Option.isSome_iff_exists]

theorem contains_insert (m : KeyMap β) (key other : PublicKey) (value : β) :
    (m.insert key value).contains other = (decide (key = other) || m.contains other) := by
  rw [contains, find?_insert]
  by_cases h : key = other <;> simp [h, contains]

/-- A new entry stands somewhere between the old ones. -/
theorem insertEntry_eq_append {key : PublicKey} {entries : List (PublicKey × β)}
    (hnew : ∀ e ∈ entries, key ≠ e.1) (value : β) :
    ∃ before after, entries = before ++ after ∧
      insertEntry key value entries = before ++ (key, value) :: after := by
  induction entries with
  | nil => exact ⟨[], [], rfl, rfl⟩
  | cons entry rest ih =>
    by_cases hlt : key < entry.1
    · exact ⟨[], entry :: rest, rfl, by simp [insertEntry, hlt]⟩
    · obtain ⟨before, after, hrest, hinsert⟩ := ih fun e he => hnew e (by simp [he])
      have hne : key ≠ entry.1 := hnew entry (by simp)
      refine ⟨entry :: before, after, by rw [hrest]; rfl, ?_⟩
      simp only [insertEntry, hlt, hne, hinsert, ↓reduceIte, List.cons_append]

theorem insert_entries_eq_append {m : KeyMap β} {key : PublicKey} (h : m.contains key = false)
    (value : β) :
    ∃ before after, m.entries = before ++ after ∧
      (m.insert key value).entries = before ++ (key, value) :: after := by
  apply insertEntry_eq_append
  intro e he heq
  have hfound : m.find? key = some e.2 := mem_entries_iff.1 (by rw [heq]; exact he)
  rw [contains_eq_false_iff.1 h] at hfound
  cases hfound

/-- Whoever does not look for the new entry finds what was found before. -/
theorem find?_entries_insert_of_neg {m : KeyMap β} {key : PublicKey} {value : β}
    {p : PublicKey × β → Bool} (h : m.contains key = false) (hp : p (key, value) = false) :
    (m.insert key value).entries.find? p = m.entries.find? p := by
  obtain ⟨before, after, hold, hnew⟩ := insert_entries_eq_append h value
  rw [hold, hnew, List.find?_append, List.find?_append, List.find?_cons_of_neg (by simp [hp])]

theorem find?_entries_insert {m : KeyMap β} {key : PublicKey} (value : β)
    (p : PublicKey × β → Bool) (h : m.contains key = false) :
    (m.insert key value).entries.find? p = some (key, value) ∨
      (m.insert key value).entries.find? p = m.entries.find? p := by
  cases hp : p (key, value) with
  | false => exact .inr (find?_entries_insert_of_neg h hp)
  | true =>
    obtain ⟨before, after, hold, hnew⟩ := insert_entries_eq_append h value
    rw [hold, hnew, List.find?_append, List.find?_append, List.find?_cons_of_pos hp]
    cases before.find? p with
    | none => exact .inl rfl
    | some e => exact .inr rfl

/-- In a sorted list the smallest element with a property is found. -/
theorem find?_eq_some_iff_least {α : Type} {f : α → PublicKey} {l : List α}
    (hsorted : l.Pairwise (f · < f ·)) {p : α → Bool} {a : α} :
    l.find? p = some a ↔ a ∈ l ∧ p a = true ∧ ∀ b ∈ l, p b = true → ¬f b < f a := by
  rw [List.find?_eq_some_iff_append]
  constructor
  · rintro ⟨ha, front, back, rfl, hfront⟩
    refine ⟨by simp, ha, ?_⟩
    intro b hb hp
    rw [List.pairwise_append, List.pairwise_cons] at hsorted
    rcases List.mem_append.1 hb with hb | hb
    · have hnot := hfront b hb
      simp [hp] at hnot
    · rcases List.mem_cons.1 hb with rfl | hb
      · exact PublicKey.lt_irrefl _
      · exact PublicKey.lt_asymm (hsorted.2.1.1 b hb)
  · rintro ⟨hmem, ha, hleast⟩
    obtain ⟨front, back, rfl⟩ := List.append_of_mem hmem
    refine ⟨ha, front, back, rfl, ?_⟩
    intro b hb
    rw [List.pairwise_append] at hsorted
    have hlt : f b < f a := hsorted.2.2 b hb a (by simp)
    simpa using fun hp => hleast b (by simp [hb]) hp hlt

/-- Of all entries with a property the one with the smallest key is found. -/
theorem find?_entries_eq_some_iff {m : KeyMap β} {p : PublicKey × β → Bool} {key : PublicKey}
    {value : β} :
    m.entries.find? p = some (key, value) ↔
      m.find? key = some value ∧ p (key, value) = true ∧
        ∀ other value', m.find? other = some value' → p (other, value') = true →
          ¬other < key := by
  rw [find?_eq_some_iff_least (f := Prod.fst) m.sorted, Prod.forall]
  simp only [mem_entries_iff]

end KeyMap

/-- The box holds a payload key for a recipient, as the holder of a private key
sealed it. -/
structure KeyBox.Holds (suite : Suite) (key : SymmetricKey) (sealer : PrivateKey)
    (recipient : PublicKey) (box : KeyBox) : Prop where
  sealedBy_eq : box.sealedBy = suite.publicKey sealer
  sealedKey_eq : box.sealedKey =
    suite.sealBox (suite.sharedKey recipient sealer) box.nonce key.octets.toBytes

namespace Payload

variable {suite : Suite} {key : SymmetricKey} {sealer own : PrivateKey}
  {recipient other : PublicKey} {box : KeyBox} {payload : Payload}

/-! ## Adding a box -/

theorem addBox_of_contains (h : payload.boxes.contains recipient = true) :
    (payload.addBox recipient box).1 = payload := by
  simp [addBox, h]

theorem addBox_of_not_contains (h : payload.boxes.contains recipient = false) :
    (payload.addBox recipient box).1 =
      { payload with
        boxes := payload.boxes.insert recipient box
        recipients := payload.recipients ++ [recipient] } := by
  simp [addBox, h]

/-! ## Routes -/

theorem route?_of_find? {self : PublicKey} (h : payload.boxes.find? self = some box) :
    payload.route? self = some (box.sealedBy, box) := by
  simp [route?, h]

theorem route?_of_find?_eq_none {self : PublicKey} (h : payload.boxes.find? self = none) :
    payload.route? self = payload.boxes.entries.find? fun entry => entry.2.sealedBy = self := by
  simp [route?, h]

/-- There is no route for a party that neither has a box nor sealed one. -/
theorem route?_eq_none {self : PublicKey} (hself : payload.boxes.contains self = false)
    (hsealed : ∀ recipient box, payload.boxes.find? recipient = some box → box.sealedBy ≠ self) :
    payload.route? self = none := by
  rw [route?_of_find?_eq_none (KeyMap.contains_eq_false_iff.1 hself), List.find?_eq_none]
  rintro ⟨recipient, box⟩ hmem
  simpa using hsealed recipient box (KeyMap.mem_entries_iff.1 hmem)

/-- A route without a box of one's own leads over a box that one's public key
is written on. -/
theorem route?_spec {self : PublicKey} (hself : payload.boxes.find? self = none)
    (h : payload.route? self = some (other, box)) :
    payload.boxes.find? other = some box ∧ box.sealedBy = self := by
  rw [route?_of_find?_eq_none hself] at h
  constructor
  · exact KeyMap.mem_entries_iff.1 (List.mem_of_find?_eq_some h)
  · simpa using List.find?_some h

theorem route?_isSome {self : PublicKey} (h : payload.boxes.find? recipient = some box)
    (hself : box.sealedBy = self) : ∃ route, payload.route? self = some route := by
  cases hfind : payload.boxes.find? self with
  | some box => exact ⟨_, route?_of_find? hfind⟩
  | none =>
    rw [route?_of_find?_eq_none hfind]
    apply Option.isSome_iff_exists.1
    apply List.find?_isSome.2
    exact ⟨(recipient, box), KeyMap.mem_entries_iff.2 h, by simpa using hself⟩

/-! ## Payload keys -/

theorem recoverKey_eq_ok_iff :
    recoverKey suite payload own = .ok key ↔
      ∃ other box, payload.route? (suite.publicKey own) = some (other, box) ∧
        openKey? suite own other box.nonce box.sealedKey = some key := by
  unfold recoverKey
  cases payload.route? (suite.publicKey own) with
  | none => simp
  | some route =>
    obtain ⟨other, box⟩ := route
    constructor
    · intro h
      refine ⟨other, box, rfl, ?_⟩
      cases hopen : openKey? suite own other box.nonce box.sealedKey with
      | none => simp [hopen] at h
      | some opened => simpa [hopen] using h
    · rintro ⟨other', box', hroute, hopen⟩
      cases hroute
      simp [hopen]

theorem recoverKey_of_route?_eq_none (h : payload.route? (suite.publicKey own) = none) :
    recoverKey suite payload own = .error .decryption := by
  simp [recoverKey, h]

theorem decrypt_of_recoverKey (h : recoverKey suite payload own = .ok key) :
    decrypt suite payload own = openBody suite payload key := by
  simp [decrypt, h, bind, Except.bind]

theorem decrypt_eq_ok_iff {message : Bytes} :
    decrypt suite payload own = .ok message ↔
      ∃ key, recoverKey suite payload own = .ok key ∧ openBody suite payload key = .ok message := by
  cases hkey : recoverKey suite payload own with
  | error error => simp [decrypt, hkey, bind, Except.bind]
  | ok key => simp [decrypt_of_recoverKey hkey]

theorem exists_route?_of_decrypt {message : Bytes} (h : decrypt suite payload own = .ok message) :
    ∃ route, payload.route? (suite.publicKey own) = some route := by
  cases hroute : payload.route? (suite.publicKey own) with
  | some route => exact ⟨route, rfl⟩
  | none => simp [decrypt, recoverKey_of_route?_eq_none hroute, bind, Except.bind] at h

theorem openKey?_eq_some_iff {nonce : Nonce} {sealedKey : Bytes} :
    openKey? suite own other nonce sealedKey = some key ↔
      suite.openBox (suite.sharedKey other own) nonce sealedKey = some key.octets.toBytes := by
  rw [openKey?, Option.bind_eq_bind, Option.bind_eq_some_iff]
  constructor
  · rintro ⟨bytes, hopen, hkey⟩
    obtain ⟨octets, hoctets, rfl⟩ := Option.map_eq_some_iff.1 hkey
    rw [hopen, Octets.ofBytes?_eq_some_iff.1 hoctets]
  · intro hopen
    exact ⟨_, hopen, SymmetricKey.ofOpened?_toBytes key⟩

/-- Bytes of another length are no key. -/
theorem openKey?_eq_none {nonce : Nonce} {sealedKey : Bytes}
    (h : ∀ bytes, suite.openBox (suite.sharedKey other own) nonce sealedKey = some bytes →
      bytes.length ≠ 32) : openKey? suite own other nonce sealedKey = none := by
  cases hopen : openKey? suite own other nonce sealedKey with
  | none => rfl
  | some key => exact absurd key.octets.length_toBytes (h _ (openKey?_eq_some_iff.1 hopen))

theorem openKey?_sealBox (hsuite : suite.OpensBoxes) {nonce : Nonce}
    (h : suite.sharedKey other own = suite.sharedKey recipient sealer) :
    openKey? suite own other nonce
      (suite.sealBox (suite.sharedKey recipient sealer) nonce key.octets.toBytes) = some key := by
  simp [openKey?, h, hsuite _ nonce key.octets.toBytes]

end Payload

namespace KeyBox.Holds

variable {suite : Suite} {key : SymmetricKey} {sealer own : PrivateKey} {recipient : PublicKey}
  {box : KeyBox}

theorem openKey?_of_sharedKey_eq (h : box.Holds suite key sealer recipient)
    (hsuite : suite.OpensBoxes)
    (hshared : suite.sharedKey recipient own = suite.sharedKey recipient sealer) :
    Payload.openKey? suite own recipient box.nonce box.sealedKey = some key := by
  rw [h.sealedKey_eq]
  exact Payload.openKey?_sealBox hsuite hshared

theorem openKey?_recipient (h : box.Holds suite key sealer recipient) (hsuite : suite.OpensBoxes)
    (hshares : suite.SharesKeys) (hown : suite.publicKey own = recipient) :
    Payload.openKey? suite own box.sealedBy box.nonce box.sealedKey = some key := by
  rw [h.sealedKey_eq, h.sealedBy_eq]
  exact Payload.openKey?_sealBox hsuite (by rw [hshares sealer own, hown])

/-- A box holds one payload key of its sealer's for its recipient. -/
theorem key_eq {other : SymmetricKey} (h : box.Holds suite key sealer recipient)
    (hother : box.Holds suite other sealer recipient) (hsuite : suite.OpensBoxes) :
    key = other := by
  have hopen := h.openKey?_of_sharedKey_eq hsuite rfl
  rw [hother.openKey?_of_sharedKey_eq hsuite rfl] at hopen
  exact (Option.some.inj hopen).symm

end KeyBox.Holds

end Envelope
