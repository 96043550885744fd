import Envelope.KeyRecord
import Envelope.Proofs.Codec
import Envelope.Proofs.Sampling

/-!
# Key records in storage

What is written for options or a key record is read back as it was, in every
style. A record has one field that is written only where there is something to
write; reading falls back on its absence. The options of a stored record are
checked when it is decoded, and nothing else is.
-/

namespace Envelope

open Json

namespace Json.Decoder

variable {α : Type}

/-- Alternatives with names of their own are told apart. -/
theorem Inverts.choice {alternatives : List (String × α)} {name : α → String}
    (h : ∀ a, alternatives.lookup (name a) = some a) :
    (Decoder.choice alternatives).Inverts fun a => .text (name a) where
  fits _ := trivial
  read a := by
    rw [Value.reading, Decoder.choice, pick, h a]

/-- Words of some size within 64 bits are read from their numbers. -/
theorem Inverts.unsigned {size : Nat} {title : String} {ofNat : Nat → α} {toNat : α → Nat}
    (hsize : size ≤ UInt64.size) (hlt : ∀ a, toNat a < size) (hofNat : ∀ a, ofNat (toNat a) = a) :
    Inverts (fun reading => (Decoder.unsigned size title reading).map ofNat)
      fun a => .number (toNat a) where
  fits a := Nat.lt_of_lt_of_le (hlt a) hsize
  read a := by
    rw [Value.reading, Decoder.unsigned, if_pos (hlt a), Except.map, hofNat]

end Json.Decoder

namespace Kdf.Options

theorem variant_inverts :
    Decoder.Inverts variantDecoder fun variant => .text (variantName variant) :=
  .choice fun variant => by cases variant <;> rfl

theorem word_inverts : Decoder.Inverts wordDecoder fun word => .number word.toNat :=
  .unsigned (by decide) UInt32.toNat_lt fun _ => UInt32.ofNat_toNat

/-- What is written for a field. -/
def written (options : Options) : Field → Value
  | .variant => .text (variantName options.variant)
  | .memory => .number options.memory.toNat
  | .iterations => .number options.iterations.toNat
  | .parallelism => .number options.parallelism.toNat
  | .version => .number options.version.toNat

/-- What is read from it. -/
def values (options : Options) : Layout.Values layout
  | .variant => options.variant
  | .memory => options.memory
  | .iterations => options.iterations
  | .parallelism => options.parallelism
  | .version => options.version

theorem writes (options : Options) :
    layout.Writes layout.order options.written options.values where
  named := by intro i; cases i <;> rfl
  nodup := by decide
  reads i _ := by
    cases i
    · exact variant_inverts.read options.variant
    · exact word_inverts.read options.memory
    · exact word_inverts.read options.iterations
    · exact word_inverts.read options.parallelism
    · exact word_inverts.read options.version
  rest i hi := absurd (layout.mem_order i) hi

theorem inverts : Decoder.Inverts decoder toJson where
  fits options :=
    ⟨trivial, word_inverts.fits options.memory, word_inverts.fits options.iterations,
      word_inverts.fits options.parallelism, word_inverts.fits options.version, trivial⟩
  read options := by
    have hread : layout.read options.toJson.reading = .ok options.values :=
      options.writes.read_eq
    rw [decoder, hread]
    rfl

/-- Options are refused as a matter of configuration. -/
theorem kind_of_validate {options : Options} {error : Error}
    (h : options.validate = .error error) : error.kind = .configuration := by
  unfold validate at h
  split at h
  · cases h
    rfl
  · cases h

end Kdf.Options

namespace KeyRecord

theorem state_inverts : Decoder.Inverts stateDecoder fun state => .text (stateName state) :=
  .choice fun state => by cases state <;> rfl

/-- The fields that are written. -/
def given (record : KeyRecord) : List Field :=
  match record.label with
  | some _ => layout.order
  | none => [.state, .options, .nonce, .salt, .sealedKey]

/-- What is written for a field, if it is. -/
def written (record : KeyRecord) : Field → Value
  | .label => .text (record.label.getD "")
  | .state => .text (stateName record.state)
  | .options => record.options.toJson
  | .nonce => record.nonce.toJson
  | .salt => record.salt.toJson
  | .sealedKey => Bytes.toJson record.sealedKey

/-- What is read from it. -/
def values (record : KeyRecord) : Layout.Values layout
  | .label => record.label
  | .state => record.state
  | .options => record.options
  | .nonce => record.nonce
  | .salt => record.salt
  | .sealedKey => record.sealedKey

theorem toJson_eq (record : KeyRecord) :
    record.toJson = layout.object record.written record.given := by
  unfold toJson given
  cases hlabel : record.label with
  | none => rfl
  | some label => simp [Layout.object, layout, written, hlabel]

theorem mem_given_iff {record : KeyRecord} {i : Field} :
    i ∈ record.given ↔ i = .label → record.label ≠ none := by
  unfold given
  cases record.label <;> cases i <;> simp [layout]

theorem writes (record : KeyRecord) :
    layout.Writes record.given record.written record.values where
  named := by intro i; cases i <;> rfl
  nodup := by
    have hnodup : layout.order.Nodup := by decide
    unfold given
    cases record.label with
    | none => decide
    | some label => exact hnodup
  reads i hi := by
    cases i with
    | label =>
      obtain ⟨label, hlabel⟩ := Option.ne_none_iff_exists'.1 (mem_given_iff.1 hi rfl)
      simp only [written, values, hlabel]
      rfl
    | state => exact state_inverts.read record.state
    | options => exact Kdf.Options.inverts.read record.options
    | nonce => exact Nonce.inverts.read record.nonce
    | salt => exact Salt.inverts.read record.salt
    | sealedKey => exact Bytes.inverts.read record.sealedKey
  rest i hi := by
    rw [mem_given_iff, Classical.not_imp] at hi
    obtain ⟨rfl, hlabel⟩ := hi
    simp only [values, Classical.not_not.1 hlabel]
    rfl

theorem inverts : Decoder.Inverts decoder toJson where
  fits record := by
    have hrest : Value.FitsMembers [
        ("type", .text (stateName record.state)), ("aopts", record.options.toJson),
        ("snonce", record.nonce.toJson), ("asalt", record.salt.toJson),
        ("sbox", Bytes.toJson record.sealedKey)] :=
      ⟨trivial, Kdf.Options.inverts.fits record.options, trivial, trivial, trivial, trivial⟩
    unfold toJson
    cases record.label with
    | none => exact hrest
    | some label => exact ⟨trivial, hrest⟩
  read record := by
    have hread : layout.read record.toJson.reading = .ok record.values := by
      rw [toJson_eq]
      exact record.writes.read_eq
    rw [decoder, hread]
    rfl

/-- Storing keeps a record, if its options are valid. -/
theorem decode_encode (record : KeyRecord) :
    decode record.encode = record.options.validate.map fun _ => record := by
  rw [decode, encode, inverts.decode_write Style.blank_indented record]
  show (record.options.validate >>= fun _ => pure record) = _
  cases record.options.validate <;> rfl

/-! ## Reading what was stored -/

variable {text : Bytes} {record : KeyRecord}

/-- What is read from a text is decoded exactly if its options are valid. -/
theorem decode_eq_ok_iff {decoded : KeyRecord} (h : Json.decode decoder text = .ok record) :
    decode text = .ok decoded ↔ record.options.validate = .ok () ∧ decoded = record := by
  have hdecode : decode text = record.options.validate >>= fun _ => pure record := by
    rw [decode, h]
    rfl
  rw [hdecode]
  cases record.options.validate with
  | ok => simp [bind, Except.bind, pure, Except.pure, eq_comm]
  | error error => simp [bind, Except.bind]

/-- Whatever a text spells, the options of the record in it are valid. -/
theorem validate_of_decode (h : decode text = .ok record) : record.options.validate = .ok () := by
  cases hread : Json.decode decoder text with
  | error fault =>
    rw [decode, hread] at h
    cases h
  | ok read =>
    obtain ⟨hvalid, rfl⟩ := (decode_eq_ok_iff hread).1 h
    exact hvalid

/-- A record comes back from storage as it was, or is refused for its options and
nothing else. What is read from a text, however it is spelled, comes back as it
was read. -/
theorem decode_stored :
    (∀ record : KeyRecord,
      (∀ other, decode record.encode = .ok other ↔
        record.options.validate = .ok () ∧ other = record) ∧
      (∀ error, decode record.encode = .error error ↔
        record.options.validate = .error error) ∧
      ∀ error, record.options.validate = .error error → error.kind = .configuration) ∧
    ∀ text record, decode text = .ok record →
      record.options.validate = .ok () ∧ decode record.encode = .ok record := by
  constructor
  · intro record
    rw [decode_encode]
    cases hvalid : record.options.validate with
    | ok => simp [Except.map, eq_comm]
    | error error =>
      have hkind := Kdf.Options.kind_of_validate hvalid
      simp [Except.map, hkind]
  · intro text record h
    have hvalid := validate_of_decode h
    rw [decode_encode, hvalid]
    exact ⟨rfl, rfl⟩

/-- A text with an unknown field, fields in another order, options as an array
without a version, no lock state, and a label that takes escapes to write. -/
def looseText : Bytes :=
  Value.write .compact <| .object [
    ("sbox", Bytes.toJson [1, 2]),
    ("remark", .object [("type", .text "unlocked")]),
    ("asalt", Salt.toJson ⟨.zero⟩),
    ("aopts", .array [.text "id", .number 16, .number 1, .number 2]),
    ("label", .text "\"\\\n\x01é😀"),
    ("snonce", Nonce.toJson ⟨.zero⟩)]

/-- What the text stands for. -/
def looseRecord : KeyRecord where
  label := some "\"\\\n\x01é😀"
  state := .locked
  options := ⟨.hybrid, 16, 1, 2, 19⟩
  nonce := ⟨.zero⟩
  salt := ⟨.zero⟩
  sealedKey := [1, 2]

theorem decode_stored_loose :
    decode looseText = .ok looseRecord ∧ looseRecord.encode ≠ looseText ∧
      looseRecord.options.validate = .ok () ∧ decode looseRecord.encode = .ok looseRecord := by
  have hdecode : decode looseText = .ok looseRecord := by decide +kernel
  exact ⟨hdecode, by decide +kernel, decode_stored.2 looseText looseRecord hdecode⟩

end KeyRecord

end Envelope
