import Envelope.Lists
import Envelope.Proofs.Extension
import Envelope.Proofs.Listing
import Envelope.Proofs.Omission

/-!
# What a party sees of a payload

A party opens the box that is addressed to it, or else the one with the smallest
addressee among those that it sealed. `SameView` says that two payloads agree on
this box and on what is sealed with the payload key; nothing else of a payload
makes a difference to that party. So the order in which boxes were added makes
none, nor does the list of recipients, as long as it is accepted.
-/

namespace Envelope

open Json

namespace Payload

variable {suite : Suite} {own : PrivateKey} {reader : PublicKey} {payload first second : Payload}

/-- The box with the smallest addressee of those that a party sealed. -/
structure FirstSealed (payload : Payload) (reader addressee : PublicKey) (box : KeyBox) : Prop where
  find?_eq : payload.boxes.find? addressee = some box
  sealedBy_eq : box.sealedBy = reader
  least : ∀ other box', payload.boxes.find? other = some box' → box'.sealedBy = reader →
    ¬other < addressee

/-- Two payloads look the same to a party. -/
structure SameView (reader : PublicKey) (first second : Payload) : Prop where
  nonce_eq : first.nonce = second.nonce
  body_eq : first.body = second.body
  /-- The box addressed to the party is the same, or there is none. -/
  own_eq : first.boxes.find? reader = second.boxes.find? reader
  /-- Where there is none, the first box that it sealed is the same. -/
  sealed_iff : first.boxes.find? reader = none → ∀ addressee box,
    FirstSealed first reader addressee box ↔ FirstSealed second reader addressee box

theorem find?_eq_some_iff_firstSealed {addressee : PublicKey} {box : KeyBox} :
    (payload.boxes.entries.find? fun entry => entry.2.sealedBy = reader) = some (addressee, box) ↔
      FirstSealed payload reader addressee box := by
  rw [KeyMap.find?_entries_eq_some_iff]
  simp only [decide_eq_true_eq]
  exact ⟨fun ⟨hfind, hsealed, hleast⟩ => ⟨hfind, hsealed, hleast⟩,
    fun ⟨hfind, hsealed, hleast⟩ => ⟨hfind, hsealed, hleast⟩⟩

theorem SameView.route?_eq (h : SameView reader first second) :
    first.route? reader = second.route? reader := by
  cases hfirst : first.boxes.find? reader with
  | some box =>
    have hsecond : second.boxes.find? reader = some box := h.own_eq ▸ hfirst
    rw [route?_of_find? hfirst, route?_of_find? hsecond]
  | none =>
    have hsecond : second.boxes.find? reader = none := h.own_eq ▸ hfirst
    rw [route?_of_find?_eq_none hfirst, route?_of_find?_eq_none hsecond]
    -- The two maps differ, but each search finds exactly the first box that was sealed.
    apply Option.ext
    rintro ⟨addressee, box⟩
    rw [find?_eq_some_iff_firstSealed, find?_eq_some_iff_firstSealed]
    exact h.sealed_iff hfirst addressee box

theorem SameView.decrypt_eq (h : SameView (suite.publicKey own) first second) :
    first.decrypt suite own = second.decrypt suite own := by
  refine decrypt_congr h.nonce_eq h.body_eq ?_
  rw [recoverKey, recoverKey, h.route?_eq]

/-- Where the boxes are the same, all parties see the same. -/
theorem sameView_of_boxes_eq (hnonce : first.nonce = second.nonce)
    (hbody : first.body = second.body) (hboxes : first.boxes = second.boxes) :
    SameView reader first second := by
  refine ⟨hnonce, hbody, by rw [hboxes], fun _ addressee box => ?_⟩
  rw [← find?_eq_some_iff_firstSealed, ← find?_eq_some_iff_firstSealed, hboxes]

/-- Whoever neither has a box nor sealed one cannot open anything. -/
theorem decrypt_of_stranger (hself : payload.boxes.contains (suite.publicKey own) = false)
    (hsealed : ∀ recipient box, payload.boxes.find? recipient = some box →
      box.sealedBy ≠ suite.publicKey own) :
    payload.decrypt suite own = .error .decryption := by
  rw [decrypt, recoverKey_of_route?_eq_none (route?_eq_none hself hsealed)]
  rfl

/-! ## Boxes that are offered one after another -/

/-- The payload after boxes were offered to it. -/
def addBoxes (payload : Payload) (offers : List (PublicKey × KeyBox)) : Payload :=
  offers.foldl (fun payload offer => (payload.addBox offer.1 offer.2).1) payload

theorem find?_addBox (payload : Payload) (recipient key : PublicKey) (box : KeyBox) :
    (payload.addBox recipient box).1.boxes.find? key =
      (payload.boxes.find? key).or (if recipient = key then some box else none) := by
  cases hmem : payload.boxes.contains recipient with
  | true =>
    obtain ⟨old, hold⟩ := KeyMap.contains_iff_exists.1 hmem
    rw [addBox_of_contains hmem]
    by_cases hkey : recipient = key
    · simp [← hkey, hold]
    · simp [hkey]
  | false =>
    rw [addBox_of_not_contains hmem, KeyMap.find?_insert]
    by_cases hkey : recipient = key
    · simp [← hkey, KeyMap.contains_eq_false_iff.1 hmem]
    · simp [hkey]

/-- What a payload has stays, and of several boxes for one recipient the first one
is taken. -/
theorem find?_addBoxes (offers : List (PublicKey × KeyBox)) (payload : Payload)
    (key : PublicKey) :
    (payload.addBoxes offers).boxes.find? key =
      (payload.boxes.find? key).or ((offers.find? (·.1 = key)).map (·.2)) := by
  induction offers generalizing payload with
  | nil => simp [addBoxes]
  | cons offer offers ih =>
    have hfirst := find?_addBox payload offer.1 key offer.2
    rw [addBoxes, List.foldl_cons, ← addBoxes, ih, hfirst, Option.or_assoc]
    by_cases hkey : offer.1 = key <;> simp [hkey]

theorem addBox_sealed (payload : Payload) (recipient : PublicKey) (box : KeyBox) :
    (payload.addBox recipient box).1.nonce = payload.nonce ∧
      (payload.addBox recipient box).1.body = payload.body := by
  unfold addBox
  split <;> exact ⟨rfl, rfl⟩

theorem addBoxes_sealed (offers : List (PublicKey × KeyBox)) (payload : Payload) :
    (payload.addBoxes offers).nonce = payload.nonce ∧
      (payload.addBoxes offers).body = payload.body := by
  induction offers generalizing payload with
  | nil => exact ⟨rfl, rfl⟩
  | cons offer offers ih =>
    obtain ⟨hnonce, hbody⟩ := addBox_sealed payload offer.1 offer.2
    exact ⟨(ih _).1.trans hnonce, (ih _).2.trans hbody⟩

/-- Boxes for different recipients may be offered in any order. -/
theorem boxes_addBoxes_perm (payload : Payload) {offers offers' : List (PublicKey × KeyBox)}
    (hperm : offers.Perm offers') (hnodup : (offers.map Prod.fst).Nodup) :
    (payload.addBoxes offers).boxes = (payload.addBoxes offers').boxes := by
  have hnodup' : (offers'.map Prod.fst).Nodup := (hperm.map Prod.fst).nodup_iff.1 hnodup
  apply KeyMap.ext_find?
  intro key
  have hfind : offers.find? (·.1 = key) = offers'.find? (·.1 = key) := by
    apply Option.ext
    intro offer
    rw [List.find?_fst_eq_some_iff hnodup, List.find?_fst_eq_some_iff hnodup', hperm.mem_iff]
  rw [find?_addBoxes, find?_addBoxes, hfind]

theorem sameView_addBoxes_perm (payload : Payload) {offers offers' : List (PublicKey × KeyBox)}
    (hperm : offers.Perm offers') (hnodup : (offers.map Prod.fst).Nodup) :
    SameView reader (payload.addBoxes offers) (payload.addBoxes offers') := by
  obtain ⟨hnonce, hbody⟩ := addBoxes_sealed offers payload
  obtain ⟨hnonce', hbody'⟩ := addBoxes_sealed offers' payload
  exact sameView_of_boxes_eq (hnonce.trans hnonce'.symm) (hbody.trans hbody'.symm)
    (boxes_addBoxes_perm payload hperm hnodup)

/-! ## Lists of recipients in texts -/

theorem Listed.perm (h : payload.Listed) {list : List PublicKey}
    (hperm : list.Perm payload.recipients) : Listed { payload with recipients := list } where
  nodup := hperm.nodup_iff.2 h.nodup
  mem_iff recipient := hperm.mem_iff.trans (h.mem_iff recipient)

/-- A text that has everything but perhaps the list, in any order. -/
theorem decode_without (dropped : List Field) {value : Value} {style : Style}
    (hs : style.Blank) (hdropped : dropped ⊆ [.recipients])
    (h : payload.toJson.Without (layout.names dropped) value) :
    decode (value.write style) = settle
      { payload with
        recipients := if .recipients ∈ dropped then [] else payload.recipients } := by
  have hfallback : ∀ i ∈ dropped, (layout.field i).fallback ≠ none := by
    intro i hi
    cases List.mem_singleton.1 (hdropped hi)
    nofun
  have hvalues : layout.defaulted dropped payload.values = values
      { payload with
        recipients := if .recipients ∈ dropped then [] else payload.recipients } := by
    funext i
    cases i with
    | recipients => exact Layout.defaulted_of_some rfl
    | _ => exact Layout.defaulted_of_none rfl
  have hread := payload.writes.read_without h hfallback
  rw [decode, decode_write_eq hs (h.fits (inverts.fits payload)), decoder, hread, hvalues]
  rfl

/-- What a party reads is decided by what it sees: nothing else of a payload
matters to it, and it reads nothing where it sees no box. So a payload reads the
same to everybody whatever the order in which boxes were added to it, and when its
list was left out of its text or was permuted there. -/
theorem view_decides (suite : Suite) (own : PrivateKey) :
    (∀ first second, SameView (suite.publicKey own) first second →
      first.decrypt suite own = second.decrypt suite own) ∧
    (∀ payload : Payload, payload.boxes.contains (suite.publicKey own) = false →
      (∀ recipient box, payload.boxes.find? recipient = some box →
        box.sealedBy ≠ suite.publicKey own) →
      payload.decrypt suite own = .error .decryption) ∧
    (∀ (payload : Payload) offers offers', offers.Perm offers' → (offers.map Prod.fst).Nodup →
      (payload.addBoxes offers).decrypt suite own =
        (payload.addBoxes offers').decrypt suite own) ∧
    ∀ payload : Payload, payload.Listed → ∀ style : Style, style.Blank → ∀ value,
      (payload.toJson.Without ["recipientList"] value →
        ∃ decoded, decode (value.write style) = .ok decoded ∧
          decoded = { payload with recipients := payload.boxes.keys } ∧
          decoded.decrypt suite own = payload.decrypt suite own) ∧
      ∀ list : List PublicKey, list.Perm payload.recipients →
        ({ payload with recipients := list } : Payload).toJson.Without [] value →
        ∃ decoded, decode (value.write style) = .ok decoded ∧
          decoded = { payload with recipients := list } ∧
          decoded.decrypt suite own = payload.decrypt suite own := by
  refine ⟨fun _ _ => SameView.decrypt_eq, fun _ => decrypt_of_stranger, ?_, ?_⟩
  · intro payload offers offers' hperm hnodup
    exact (sameView_addBoxes_perm payload hperm hnodup).decrypt_eq
  · intro payload hlisted style hs value
    have hsame : ∀ list, ({ payload with recipients := list } : Payload).decrypt suite own =
        payload.decrypt suite own :=
      fun list => (sameView_of_boxes_eq rfl rfl rfl).decrypt_eq
    constructor
    · intro h
      refine ⟨_, ?_, rfl, hsame _⟩
      have hdecode := decode_without [.recipients] hs (List.Subset.refl _) h
      exact hdecode.trans (settle_of_nil rfl)
    · intro list hperm h
      refine ⟨_, ?_, rfl, hsame _⟩
      have hdecode := decode_without [] hs (List.nil_subset _) h
      exact hdecode.trans (hlisted.perm hperm).settle_eq

/-- A box for nobody and another sender change nothing for the first party, which
sealed the letter; the third party is a stranger to it. Two more boxes may come in
either order, and their list may be missing or turned around. -/
theorem view_decides_letter :
    let spare : KeyBox := ⟨.zero, ⟨.zero⟩, []⟩
    let altered : Payload :=
      { letter with sender := .zero, recipients := [], boxes := letter.boxes.insert .zero spare }
    let offers := [(partyKey 3, spare), (partyKey 4, spare)]
    let extended := letter.addBoxes offers
    let bare : Value := .object (extended.toJson.members.take 4)
    let turned : Payload := { extended with recipients := extended.recipients.reverse }
    letter.decrypt .quartet (party 1) = .ok [104, 105] ∧
      SameView (partyKey 1) altered letter ∧
      altered.decrypt .quartet (party 1) = letter.decrypt .quartet (party 1) ∧
      letter.decrypt .quartet (party 3) = .error .decryption ∧
      extended.decrypt .quartet (party 1) =
        (letter.addBoxes offers.reverse).decrypt .quartet (party 1) ∧
      (∃ decoded, decode (bare.write .indented) = .ok decoded ∧
        decoded.decrypt .quartet (party 1) = extended.decrypt .quartet (party 1)) ∧
      ∃ decoded, decode turned.encode = .ok decoded ∧
        decoded.decrypt .quartet (party 1) = extended.decrypt .quartet (party 1) := by
  intro spare altered offers extended bare turned
  obtain ⟨hview, -, horder, htext⟩ := view_decides .quartet (party 1)
  obtain ⟨-, hstranger, -, -⟩ := view_decides .quartet (party 3)
  have hopen : letter.decrypt .quartet (party 1) = .ok [104, 105] := by decide +kernel
  have hsame : SameView (partyKey 1) altered letter := by
    have hfree : letter.boxes.contains .zero = false := by decide +kernel
    refine ⟨rfl, rfl, ?_, fun _ addressee box => ?_⟩
    · rw [KeyMap.find?_insert, if_neg (by decide +kernel)]
    · rw [← find?_eq_some_iff_firstSealed, ← find?_eq_some_iff_firstSealed,
        KeyMap.find?_entries_insert_of_neg hfree (by decide +kernel)]
  have hlisted : letter.Listed := listed_of_settle (by decide +kernel : letter.settle = .ok letter)
  have hlisted' : extended.Listed := (hlisted.addBox _ _).addBox _ _
  have hnodup : (offers.map Prod.fst).Nodup := by decide +kernel
  have hstrange : ∀ recipient box, letter.boxes.find? recipient = some box →
      box.sealedBy ≠ partyKey 3 := by
    have hentries : ∀ entry ∈ letter.boxes.entries, entry.2.sealedBy ≠ partyKey 3 := by
      decide +kernel
    exact fun recipient box hfind => hentries _ (KeyMap.mem_entries_iff.2 hfind)
  obtain ⟨decoded, hdecode, -, hread⟩ := (htext extended hlisted' .indented
    Style.blank_indented bare).1 ⟨_, rfl, .refl _⟩
  obtain ⟨decoded', hdecode', -, hread'⟩ := (htext extended hlisted' .compact
    Style.blank_compact turned.toJson).2 _ (List.reverse_perm _) ⟨_, rfl, .refl _⟩
  exact ⟨hopen, hsame, hview altered letter hsame,
    hstranger letter (by decide +kernel) hstrange,
    horder letter offers offers.reverse (List.reverse_perm _).symm hnodup,
    ⟨decoded, hdecode, hread⟩, decoded', hdecode', hread'⟩

end Payload

end Envelope
