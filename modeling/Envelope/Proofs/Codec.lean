import Envelope.Json.Layout
import Envelope.Json.RoundTrip
import Envelope.Key.Format
import Envelope.Base64.Canonical

/-!
# Decoders that undo writing

`Inverts` speaks of values and their readings. It is put together along the
structure of a format, and becomes a statement about texts only at the end, in
`Inverts.decode_write`. For a record it comes down to its fields: `Layout.Writes`
says which of them are written and that each is read back.
-/

namespace Envelope.Json

variable {α κ : Type}

/-- A decoder finds in a text what it finds in the reading of the value that the
text was written for. -/
theorem decode_write_eq {style : Style} (hs : style.Blank) {value : Value} (hfits : value.Fits)
    (decoder : Decoder α) : decode decoder (value.write style) = decoder value.reading := by
  rw [decode, Value.read_write hs value hfits]
  cases decoder value.reading <;> rfl

/-- A decoder gives every value back from what is written for it. -/
structure Decoder.Inverts (decoder : Decoder α) (write : α → Value) : Prop where
  fits : ∀ a, (write a).Fits
  read : ∀ a, decoder (write a).reading = .ok a

namespace Decoder.Inverts

variable {decoder : Decoder α} {write : α → Value}

theorem decode_write (h : decoder.Inverts write) {style : Style} (hs : style.Blank) (a : α) :
    decode decoder ((write a).write style) = .ok a := by
  rw [decode_write_eq hs (h.fits a), h.read a]

theorem ofText {parse : String → Except Fault α} {print : α → String}
    (h : OneText parse print) : (Decoder.ofText parse).Inverts fun a => .text (print a) where
  fits _ := trivial
  read a := by
    rw [Value.reading, Decoder.ofText, Decoder.text]
    exact h.parse_print a

theorem items (h : decoder.Inverts write) (as : List α) :
    Decoder.items decoder true (Value.readings (as.map write)) = .ok as := by
  induction as with
  | nil => rfl
  | cons a as ih =>
    rw [List.map_cons, Value.readings, Decoder.items, h.read a, ih]
    rfl

theorem fitsAll (h : decoder.Inverts write) (as : List α) : Value.FitsAll (as.map write) := by
  induction as with
  | nil => trivial
  | cons a as ih => exact ⟨h.fits a, ih⟩

theorem list (h : decoder.Inverts write) :
    (Decoder.list decoder).Inverts fun as => .array (as.map write) where
  fits := h.fitsAll
  read := h.items

theorem entries {key : String → Except Fault κ} {print : κ → String} (h : decoder.Inverts write)
    (hkey : ∀ k, key (print k) = .ok k) (es : List (κ × α)) :
    Decoder.entries key decoder true
      (Value.memberReadings (es.map fun e => (print e.1, write e.2))) = .ok es := by
  induction es with
  | nil => rfl
  | cons e es ih =>
    obtain ⟨k, a⟩ := e
    rw [List.map_cons, Value.memberReadings, Value.memberReading, Decoder.entries, Decoder.name, ih]
    simp only [bind, Except.bind, hkey, h.read a]
    rfl

theorem fitsMembers {print : κ → String} (h : decoder.Inverts write) (es : List (κ × α)) :
    Value.FitsMembers (es.map fun e => (print e.1, write e.2)) := by
  induction es with
  | nil => trivial
  | cons e es ih => exact ⟨h.fits e.2, ih⟩

theorem map {key : String → Except Fault κ} {print : κ → String} (h : decoder.Inverts write)
    (hkey : ∀ k, key (print k) = .ok k) :
    (Decoder.map key decoder).Inverts fun es => .object (es.map fun e => (print e.1, write e.2))
    where
  fits := h.fitsMembers
  read := h.entries hkey

end Decoder.Inverts

namespace Layout

variable {Index : Type} [DecidableEq Index]

/-- What is written for some fields. -/
def object (layout : Layout Index) (written : Index → Value) (fields : List Index) : Value :=
  .object (fields.map fun i => ((layout.field i).name, written i))

/-- Some fields of a record are written, and their values are read from what is
written. The fields that are not written fall back on their values. -/
structure Writes (layout : Layout Index) (given : List Index) (written : Index → Value)
    (values : Values layout) : Prop where
  named : ∀ i, layout.index? (layout.field i).name = some i
  nodup : given.Nodup
  reads : ∀ i ∈ given, (layout.field i).read (written i).reading = .ok (values i)
  rest : ∀ i, i ∉ given → (layout.field i).fallback = some (values i)

variable {layout : Layout Index} {given : List Index} {written : Index → Value}
  {values : Values layout}

omit [DecidableEq Index] in
theorem reading_object (layout : Layout Index) (written : Index → Value) (fields : List Index) :
    (layout.object written fields).reading =
      .object (fields.map (layout.member fun i => (written i).reading)) true := by
  rw [object, Value.reading, Value.memberReadings_eq_map, List.map_map]
  rfl

theorem Writes.read_eq (h : layout.Writes given written values) :
    layout.read (layout.object written given).reading = .ok values := by
  rw [reading_object]
  exact read_object h.named h.nodup h.reads h.rest

end Layout

end Envelope.Json

namespace Envelope

open Json

/-! ## Keys, nonces, salts and byte strings -/

theorem PublicKey.oneText_ofBase64 : OneText ofBase64 toBase64 :=
  (Base64.oneText_octets 32).map (fun _ => rfl) fun _ => rfl

theorem PublicKey.oneText_ofText : OneText ofText toBase64 :=
  oneText_ofBase64.mapError _

theorem Nonce.oneText_ofBase64 : OneText ofBase64 toBase64 :=
  (Base64.oneText_octets 24).map (fun _ => rfl) fun _ => rfl

theorem Salt.oneText_ofBase64 : OneText ofBase64 toBase64 :=
  (Base64.oneText_octets 16).map (fun _ => rfl) fun _ => rfl

theorem PublicKey.inverts : Decoder.Inverts PublicKey.decoder PublicKey.toJson :=
  .ofText oneText_ofText

theorem Nonce.inverts : Decoder.Inverts Nonce.decoder Nonce.toJson :=
  .ofText (oneText_ofBase64.mapError _)

theorem Salt.inverts : Decoder.Inverts Salt.decoder Salt.toJson :=
  .ofText (oneText_ofBase64.mapError _)

theorem Bytes.inverts : Decoder.Inverts Bytes.decoder Bytes.toJson :=
  .ofText (Base64.oneText.mapError _)

end Envelope
