import Envelope.Payload.Format
import Envelope.Proofs.Codec
import Envelope.Proofs.Routes

/-!
# Payloads in transport

Decoding what was encoded gives the payload back up to what decoding does to
the list of recipients. A payload whose list names exactly the recipients with
a box, each once, comes back as it is.
-/

namespace Envelope

open Json

namespace KeyMap

variable {β : Type}

theorem ofList_eq_foldr (entries : List (PublicKey × β)) :
    ofList entries = entries.reverse.foldr (fun entry m => m.insert entry.1 entry.2) empty := by
  rw [ofList, List.foldr_reverse]

/-- The last one of several entries for a key is found. -/
theorem find?_ofList (entries : List (PublicKey × β)) (key : PublicKey) :
    (ofList entries).find? key = (entries.reverse.find? (·.1 = key)).map (·.2) := by
  rw [ofList_eq_foldr]
  induction entries.reverse with
  | nil => rfl
  | cons entry rest ih =>
    rw [List.foldr_cons, find?_insert, ih]
    by_cases h : entry.1 = key <;> simp [h]

theorem ofList_entries (m : KeyMap β) : ofList m.entries = m := by
  apply ext_find?
  intro key
  rw [find?_ofList]
  cases h : m.entries.reverse.find? (·.1 = key) with
  | some entry =>
    have hmem : entry ∈ m.entries := List.mem_reverse.1 (List.mem_of_find?_eq_some h)
    have hkey : entry.1 = key := by simpa using List.find?_some h
    exact (mem_entries_iff.1 (hkey ▸ hmem : (key, entry.2) ∈ m.entries)).symm
  | none =>
    cases hfind : m.find? key with
    | none => rfl
    | some value =>
      have hmem := List.mem_reverse.2 (mem_entries_iff.2 hfind)
      simpa using List.find?_eq_none.1 h _ hmem

end KeyMap

/-! ## The formats -/

/-- What is written for a field. -/
def KeyBox.written (box : KeyBox) : Field → Value
  | .sealedBy => box.sealedBy.toJson
  | .nonce => box.nonce.toJson
  | .sealedKey => Bytes.toJson box.sealedKey

/-- What is read from it. -/
def KeyBox.values (box : KeyBox) : Layout.Values layout
  | .sealedBy => box.sealedBy
  | .nonce => box.nonce
  | .sealedKey => box.sealedKey

theorem KeyBox.writes (box : KeyBox) : layout.Writes layout.order box.written box.values where
  named := by intro i; cases i <;> rfl
  nodup := by decide
  reads i _ := by
    cases i
    · exact PublicKey.inverts.read box.sealedBy
    · exact Nonce.inverts.read box.nonce
    · exact Bytes.inverts.read box.sealedKey
  rest i hi := absurd (layout.mem_order i) hi

theorem KeyBox.inverts : Decoder.Inverts KeyBox.decoder KeyBox.toJson where
  fits _ := ⟨trivial, trivial, trivial, trivial⟩
  read box := by
    have hread : layout.read box.toJson.reading = .ok box.values := box.writes.read_eq
    rw [decoder, hread]
    rfl

namespace Payload

theorem boxes_inverts : Decoder.Inverts boxesDecoder fun boxes : KeyMap KeyBox =>
    .object (boxes.entries.map fun (recipient, box) => (recipient.toBase64, box.toJson)) where
  fits boxes := (KeyBox.inverts.map PublicKey.oneText_ofText.parse_print).fits boxes.entries
  read boxes := by
    have h := (KeyBox.inverts.map PublicKey.oneText_ofText.parse_print).read boxes.entries
    have hmap := congrArg (Except.map KeyMap.ofList) h
    rw [Except.map, KeyMap.ofList_entries] at hmap
    exact hmap

def written (payload : Payload) : Field → Value
  | .sender => payload.sender.toJson
  | .nonce => payload.nonce.toJson
  | .body => Bytes.toJson payload.body
  | .boxes => .object (payload.boxes.entries.map fun (recipient, box) =>
      (recipient.toBase64, box.toJson))
  | .recipients => .array (payload.recipients.map PublicKey.toJson)

def values (payload : Payload) : Layout.Values layout
  | .sender => payload.sender
  | .nonce => payload.nonce
  | .body => payload.body
  | .boxes => payload.boxes
  | .recipients => payload.recipients

theorem writes (payload : Payload) :
    layout.Writes layout.order payload.written payload.values where
  named := by intro i; cases i <;> rfl
  nodup := by decide
  reads i _ := by
    cases i
    · exact PublicKey.inverts.read payload.sender
    · exact Nonce.inverts.read payload.nonce
    · exact Bytes.inverts.read payload.body
    · exact boxes_inverts.read payload.boxes
    · exact PublicKey.inverts.list.read payload.recipients
  rest i hi := absurd (layout.mem_order i) hi

theorem inverts : Decoder.Inverts decoder toJson where
  fits payload :=
    ⟨trivial, trivial, trivial, boxes_inverts.fits payload.boxes,
      PublicKey.inverts.list.fits payload.recipients, trivial⟩
  read payload := by
    have hread : layout.read payload.toJson.reading = .ok payload.values :=
      payload.writes.read_eq
    rw [decoder, hread]
    rfl

theorem decode_encode (payload : Payload) : decode payload.encode = payload.settle := by
  rw [decode, encode, inverts.decode_write Style.blank_compact payload]
  rfl

/-! ## Lists of recipients -/

/-- The list names exactly the recipients who have a box, each once. -/
structure Listed (payload : Payload) : Prop where
  nodup : payload.recipients.Nodup
  mem_iff : ∀ recipient, recipient ∈ payload.recipients ↔
    payload.boxes.contains recipient = true

theorem checkListed_eq_ok {boxes : KeyMap KeyBox} {seen recipients : List PublicKey}
    (hnodup : recipients.Nodup) (hseen : ∀ recipient ∈ recipients, recipient ∉ seen)
    (hbox : ∀ recipient ∈ recipients, boxes.contains recipient = true) :
    checkListed boxes seen recipients = .ok () := by
  induction recipients generalizing seen with
  | nil => rfl
  | cons recipient rest ih =>
    obtain ⟨hnot, hrest⟩ := List.nodup_cons.1 hnodup
    rw [checkListed, if_neg (hseen _ (by simp)), if_pos (hbox _ (by simp))]
    apply ih hrest
    · intro other hother
      have hne : other ≠ recipient := fun h => hnot (h ▸ hother)
      simp [hne, hseen other (by simp [hother])]
    · intro other hother
      exact hbox other (by simp [hother])

theorem Listed.settle_eq {payload : Payload} (h : payload.Listed) :
    payload.settle = .ok payload := by
  unfold settle
  cases hempty : payload.recipients.isEmpty with
  | true =>
    -- Without recipients there are no boxes either, and the list stays empty.
    have hrecipients : payload.recipients = [] := List.isEmpty_iff.1 hempty
    have hkeys : payload.boxes.keys = [] := by
      apply List.eq_nil_iff_forall_not_mem.2
      intro recipient hmem
      have hlisted := (h.mem_iff recipient).2 (KeyMap.mem_keys_iff.1 hmem)
      simp [hrecipients] at hlisted
    have hsame : ({ payload with recipients := payload.boxes.keys } : Payload) = payload := by
      rw [hkeys, ← hrecipients]
    simp [hsame]
  | false =>
    have hcheck : checkListed payload.boxes [] payload.recipients = .ok () :=
      checkListed_eq_ok h.nodup (by simp) fun recipient => (h.mem_iff recipient).1
    have hfind : payload.boxes.keys.find? (· ∉ payload.recipients) = none := by
      apply List.find?_eq_none.2
      intro recipient hmem
      simpa using (h.mem_iff recipient).2 (KeyMap.mem_keys_iff.1 hmem)
    simp only [hcheck, hfind, bind, Except.bind, pure, Except.pure, Bool.false_eq_true, ↓reduceIte]

theorem listed_unaddressed (sender : PublicKey) (nonce : Nonce) (body : Bytes) :
    (unaddressed sender nonce body).Listed where
  nodup := List.nodup_nil
  mem_iff recipient := by simp [unaddressed, KeyMap.contains]

theorem Listed.addBox {payload : Payload} (h : payload.Listed) (recipient : PublicKey)
    (box : KeyBox) : (payload.addBox recipient box).1.Listed := by
  cases hmem : payload.boxes.contains recipient with
  | true =>
    rw [addBox_of_contains hmem]
    exact h
  | false =>
    have hnot : recipient ∉ payload.recipients := by simp [h.mem_iff, hmem]
    rw [addBox_of_not_contains hmem]
    constructor
    · refine List.nodup_append.2 ⟨h.nodup, by simp, ?_⟩
      intro other hother added hadded he
      rw [List.mem_singleton] at hadded
      exact hnot (hadded ▸ he ▸ hother)
    · intro other
      simp only [List.mem_append, List.mem_singleton, h.mem_iff, KeyMap.contains_insert,
        Bool.or_eq_true, decide_eq_true_eq]
      rw [or_comm, eq_comm]

end Payload

end Envelope
