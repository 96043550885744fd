import Envelope.Proofs.Circle
import Envelope.Proofs.Sampling
import Envelope.Proofs.Transport

/-!
# What decoding makes of a list of recipients

Nothing is lost in writing, so what becomes of a payload in transport is decided
by its list and its boxes. A `Complaint` says which place of the list is at
fault first, without reference to the pass that looks for it. Decoding refuses
exactly the payloads with a complaint, and what it accepts it gives back
unchanged from then on.
-/

namespace Envelope

open Json

namespace KeyMap

variable {β : Type}

theorem sorted_keys (m : KeyMap β) : m.keys.Pairwise (· < ·) :=
  List.pairwise_map.2 m.sorted

/-- Of all keys with a property the smallest one is found. -/
theorem find?_keys_eq_some_iff {m : KeyMap β} {p : PublicKey → Bool} {key : PublicKey} :
    m.keys.find? p = some key ↔
      m.contains key = true ∧ p key = true ∧
        ∀ other, m.contains other = true → p other = true → ¬other < key := by
  rw [find?_eq_some_iff_least (f := fun key => key) m.sorted_keys]
  simp only [mem_keys_iff]

end KeyMap

namespace Payload

variable {payload decoded : Payload} {boxes : KeyMap KeyBox} {fault : RecipientFault}
  {text : Bytes}

/-- Everybody on the list has a box, and nobody is on it twice. -/
structure Orderly (boxes : KeyMap KeyBox) (recipients : List PublicKey) : Prop where
  nodup : recipients.Nodup
  boxed : ∀ recipient ∈ recipients, boxes.contains recipient = true

/-- What is wrong with the list of a payload. The first place at fault counts;
only where no place is at fault, the smallest key that is missing. -/
inductive Complaint (payload : Payload) : RecipientFault → Prop
  | listedTwice {before recipient after}
      (hlist : payload.recipients = before ++ recipient :: after)
      (hbefore : Orderly payload.boxes before) (hagain : recipient ∈ before) :
      Complaint payload (.listedTwice recipient)
  | noBox {before recipient after}
      (hlist : payload.recipients = before ++ recipient :: after)
      (hbefore : Orderly payload.boxes before) (hnew : recipient ∉ before)
      (hbox : payload.boxes.contains recipient = false) :
      Complaint payload (.noBox recipient)
  | unlisted {recipient}
      (hlist : Orderly payload.boxes payload.recipients)
      (hbox : payload.boxes.contains recipient = true)
      (hmissing : recipient ∉ payload.recipients)
      (hleast : ∀ other, payload.boxes.contains other = true → other ∉ payload.recipients →
        ¬other < recipient) :
      Complaint payload (.unlisted recipient)

/-! ## The pass over the list -/

/-- The pass comes through the orderly part of a list, and remembers it. -/
theorem checkListed_append {before : List PublicKey} (h : Orderly boxes before)
    {seen : List PublicKey} (hseen : ∀ recipient ∈ before, recipient ∉ seen)
    (rest : List PublicKey) :
    checkListed boxes seen (before ++ rest) = checkListed boxes (before.reverse ++ seen) rest := by
  induction before generalizing seen with
  | nil => rfl
  | cons recipient before ih =>
    obtain ⟨hnot, hnodup⟩ := List.nodup_cons.1 h.nodup
    have hbefore : Orderly boxes before :=
      ⟨hnodup, fun other hother => h.boxed other (List.mem_cons_of_mem _ hother)⟩
    have hseen' : ∀ other ∈ before, other ∉ recipient :: seen := by
      intro other hother hmem
      rcases List.mem_cons.1 hmem with rfl | hmem
      · exact hnot hother
      · exact hseen other (List.mem_cons_of_mem _ hother) hmem
    rw [List.cons_append, checkListed, if_neg (hseen _ List.mem_cons_self),
      if_pos (h.boxed _ List.mem_cons_self), ih hbefore hseen', List.reverse_cons,
      List.append_assoc]
    rfl

theorem Orderly.append_singleton {before : List PublicKey} {recipient : PublicKey}
    (h : Orderly boxes before) (hnew : recipient ∉ before)
    (hbox : boxes.contains recipient = true) : Orderly boxes (before ++ [recipient]) where
  nodup := by
    refine List.nodup_append.2 ⟨h.nodup, by simp, ?_⟩
    rintro other hother _ hadded rfl
    exact hnew (List.mem_singleton.1 hadded ▸ hother)
  boxed other hother := by
    rcases List.mem_append.1 hother with hother | hother
    · exact h.boxed other hother
    · exact List.mem_singleton.1 hother ▸ hbox

/-- A list is orderly up to its first place at fault, if it has one. -/
theorem orderly_or_exists {before : List PublicKey} (h : Orderly boxes before)
    (rest : List PublicKey) :
    Orderly boxes (before ++ rest) ∨
      ∃ front recipient back, before ++ rest = front ++ recipient :: back ∧
        Orderly boxes front ∧
          (recipient ∈ front ∨ recipient ∉ front ∧ boxes.contains recipient = false) := by
  induction rest generalizing before with
  | nil => exact .inl (by simpa using h)
  | cons recipient rest ih =>
    by_cases hagain : recipient ∈ before
    · exact .inr ⟨before, recipient, rest, rfl, h, .inl hagain⟩
    · cases hbox : boxes.contains recipient with
      | false => exact .inr ⟨before, recipient, rest, rfl, h, .inr ⟨hagain, hbox⟩⟩
      | true => simpa using ih (h.append_singleton hagain hbox)

theorem Orderly.checkListed_eq (h : Orderly payload.boxes payload.recipients) :
    checkListed payload.boxes [] payload.recipients = .ok () := by
  have hpass : checkListed payload.boxes [] (payload.recipients ++ []) = .ok () :=
    checkListed_append h (by simp) []
  rw [List.append_nil] at hpass
  exact hpass

/-! ## Settling -/

theorem settle_of_nil (h : payload.recipients = []) :
    payload.settle = .ok { payload with recipients := payload.boxes.keys } := by
  simp [settle, h]

/-- A payload is refused with the complaint that there is about its list. -/
theorem Complaint.settle_eq (h : Complaint payload fault) (hne : payload.recipients ≠ []) :
    payload.settle = .error (.recipient fault) := by
  rw [settle, if_neg (by simpa using hne)]
  cases h with
  | listedTwice hlist hbefore hagain =>
    rw [hlist, checkListed_append hbefore (by simp), checkListed, if_pos (by simpa using hagain)]
    rfl
  | noBox hlist hbefore hnew hbox =>
    rw [hlist, checkListed_append hbefore (by simp), checkListed, if_neg (by simpa using hnew),
      if_neg (by simp [hbox])]
    rfl
  | @unlisted recipient hlist hbox hmissing hleast =>
    have hfind : payload.boxes.keys.find? (· ∉ payload.recipients) = some recipient := by
      refine KeyMap.find?_keys_eq_some_iff.2 ⟨hbox, by simpa using hmissing, ?_⟩
      intro other hother hnot
      exact hleast other hother (by simpa using hnot)
    rw [hlist.checkListed_eq, hfind]
    rfl

/-- Without a complaint the list names exactly the recipients with a box. -/
theorem listed_or_complaint (payload : Payload) :
    payload.Listed ∨ ∃ fault, Complaint payload fault := by
  rcases orderly_or_exists ⟨List.nodup_nil, by simp⟩ payload.recipients with
    hlist | ⟨before, recipient, after, hlist, hbefore, hagain | ⟨hnew, hbox⟩⟩
  · cases hfind : payload.boxes.keys.find? (· ∉ payload.recipients) with
    | some recipient =>
      obtain ⟨hbox, hmissing, hleast⟩ := KeyMap.find?_keys_eq_some_iff.1 hfind
      refine .inr ⟨_, .unlisted hlist hbox (by simpa using hmissing) ?_⟩
      intro other hother hnot
      exact hleast other hother (by simpa using hnot)
    | none =>
      refine .inl ⟨hlist.nodup, fun recipient => ⟨hlist.boxed recipient, fun hbox => ?_⟩⟩
      simpa using List.find?_eq_none.1 hfind recipient (KeyMap.mem_keys_iff.2 hbox)
  · exact .inr ⟨_, .listedTwice hlist hbefore hagain⟩
  · exact .inr ⟨_, .noBox hlist hbefore hnew hbox⟩

theorem Complaint.not_listed (h : Complaint payload fault) (hne : payload.recipients ≠ []) :
    ¬payload.Listed := by
  intro hlisted
  have hsettle := h.settle_eq hne
  rw [hlisted.settle_eq] at hsettle
  cases hsettle

theorem settle_eq_ok_iff :
    payload.settle = .ok decoded ↔
      (payload.recipients ≠ [] ∧ payload.Listed ∧ decoded = payload) ∨
      (payload.recipients = [] ∧ decoded = { payload with recipients := payload.boxes.keys }) := by
  by_cases hnil : payload.recipients = []
  · simp [settle_of_nil hnil, hnil, eq_comm]
  · rcases listed_or_complaint payload with hlisted | ⟨fault, hfault⟩
    · simp [hlisted.settle_eq, hlisted, hnil, eq_comm]
    · simp [hfault.settle_eq hnil, hfault.not_listed hnil, hnil]

theorem settle_eq_error_iff {error : Error} :
    payload.settle = .error error ↔
      payload.recipients ≠ [] ∧ ∃ fault, Complaint payload fault ∧ error = .recipient fault := by
  constructor
  · intro herror
    have hnil : payload.recipients ≠ [] := by
      intro hnil
      rw [settle_of_nil hnil] at herror
      cases herror
    rcases listed_or_complaint payload with hlisted | ⟨fault, hfault⟩
    · rw [hlisted.settle_eq] at herror
      cases herror
    · rw [hfault.settle_eq hnil] at herror
      cases herror
      exact ⟨hnil, fault, hfault, rfl⟩
  · rintro ⟨hnil, fault, hfault, rfl⟩
    exact hfault.settle_eq hnil

/-- What settling gives names exactly the recipients with a box. -/
theorem listed_of_settle (h : payload.settle = .ok decoded) : decoded.Listed := by
  rcases settle_eq_ok_iff.1 h with ⟨-, hlisted, rfl⟩ | ⟨-, rfl⟩
  · exact hlisted
  · exact ⟨payload.boxes.nodup_keys, fun _ => KeyMap.mem_keys_iff⟩

/-! ## What transport does -/

/-- A payload is decoded as it was encoded if its list names exactly the
recipients with a box, and with the keys in order for a list if it had none.
Any other payload is refused with the complaint about its list. -/
theorem decode_encode_iff (payload : Payload) :
    (∀ decoded, decode payload.encode = .ok decoded ↔
      (payload.recipients ≠ [] ∧ payload.Listed ∧ decoded = payload) ∨
      (payload.recipients = [] ∧ decoded = { payload with recipients := payload.boxes.keys })) ∧
    (∀ error, decode payload.encode = .error error ↔
      payload.recipients ≠ [] ∧ ∃ fault, Complaint payload fault ∧ error = .recipient fault) ∧
    (payload.boxes.keys.Pairwise (· < ·) ∧
      ∀ recipient, recipient ∈ payload.boxes.keys ↔ payload.boxes.contains recipient = true) ∧
    ∀ key : PublicKey,
      (Error.recipient (.listedTwice key)).message =
        "invalid recipient: " ++ ("recipient " ++ key.toBase64 ++ " listed twice") ∧
      (Error.recipient (.noBox key)).message =
        "invalid recipient: " ++ ("listed recipient " ++ key.toBase64 ++ " has no box") ∧
      (Error.recipient (.unlisted key)).message =
        "invalid recipient: " ++
          ("box for " ++ key.toBase64 ++ " missing from the recipient list") := by
  simp only [decode_encode]
  exact ⟨fun _ => settle_eq_ok_iff, fun _ => settle_eq_error_iff,
    ⟨payload.boxes.sorted_keys, fun _ => KeyMap.mem_keys_iff⟩, fun _ => ⟨rfl, rfl, rfl⟩⟩

/-- Decodes a text and encodes what it stands for. -/
def recode (text : Bytes) : Except Error Bytes :=
  (decode text).map encode

def recodeTimes : Nat → Bytes → Except Error Bytes
  | 0, text => .ok text
  | rounds + 1, text => recode text >>= recodeTimes rounds

theorem recodeTimes_encode (h : payload.Listed) (rounds : Nat) :
    recodeTimes rounds payload.encode = .ok payload.encode := by
  induction rounds with
  | zero => rfl
  | succ rounds ih =>
    have hround : recode payload.encode = .ok payload.encode := by
      rw [recode, decode_encode, h.settle_eq]
      rfl
    rw [recodeTimes, hround]
    exact ih

/-- However a text spells a payload, its list then names exactly the recipients
with a box, and no further round of encoding and decoding changes it. -/
theorem decoded_stable (h : decode text = .ok payload) :
    payload.Listed ∧ decode payload.encode = .ok payload ∧
      ∀ rounds, recodeTimes rounds payload.encode = .ok payload.encode := by
  unfold decode at h
  cases hread : Json.decode decoder text with
  | error fault =>
    rw [hread] at h
    exact absurd h nofun
  | ok read =>
    have hsettle : read.settle = .ok payload := by
      rw [hread] at h
      exact h
    have hlisted : payload.Listed := listed_of_settle hsettle
    refine ⟨hlisted, ?_, recodeTimes_encode hlisted⟩
    rw [decode_encode, hlisted.settle_eq]

/-- A text with blanks, an unknown field, fields in another order, boxes as
arrays, two boxes for one recipient and no list. -/
def looseText : Bytes :=
  let nonce := Nonce.toJson ⟨.zero⟩
  Value.write .indented <| .object [
    ("remark", .array [.number 1, .object [("nonce", .text "none")]]),
    ("recipientBoxes", .object [
      ((point 9).toBase64, .object [
        ("nonce", nonce), ("sealedKey", Bytes.toJson [1]), ("sealedBy", (point 2).toJson)]),
      ((point 2).toBase64, .array [(point 9).toJson, nonce, Bytes.toJson []]),
      ((point 9).toBase64, .array [(point 2).toJson, nonce, Bytes.toJson [2]])]),
    ("cipherText", Bytes.toJson [0, 1, 2]),
    ("nonce", nonce),
    ("senderPublicKey", (point 2).toJson)]

/-- What the text stands for. -/
def loosePayload : Payload where
  sender := point 2
  nonce := ⟨.zero⟩
  body := [0, 1, 2]
  boxes := .ofList [(point 9, ⟨point 2, ⟨.zero⟩, [2]⟩), (point 2, ⟨point 9, ⟨.zero⟩, []⟩)]
  recipients := [point 2, point 9]

theorem decoded_stable_loose :
    decode looseText = .ok loosePayload ∧ loosePayload.encode ≠ looseText ∧
      loosePayload.Listed ∧ decode loosePayload.encode = .ok loosePayload ∧
      ∀ rounds, recodeTimes rounds loosePayload.encode = .ok loosePayload.encode := by
  have hdecode : decode looseText = .ok loosePayload := by decide +kernel
  exact ⟨hdecode, by decide +kernel, decoded_stable hdecode⟩

end Payload

end Envelope
