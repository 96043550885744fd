import Envelope.Enclave.Config
import Envelope.Proofs.Spelling
import Mathlib.Data.Set.List

/-!
# One text for each key

Keys, nonces, salts and byte strings are read from the texts that are written for
them and from no others, be it on their own, in a list or as the names of boxes. So
a check that no recipient is named twice cannot be got around by spelling a key in
another way.
-/

namespace Envelope

open Json

theorem PublicKey.oneText_parse : OneText parse toBase64 :=
  oneText_ofBase64.mapError _

/-! ## What is read from a document -/

namespace Json.Decoder

variable {α κ : Type} {decoder : Decoder α} {write : α → Value} {reading : Reading}

/-- A decoder that takes a value from nothing but what is written for it. -/
def Canonical (decoder : Decoder α) (write : α → Value) : Prop :=
  ∀ reading a, decoder reading = .ok a ↔ reading = (write a).reading

theorem text_eq_ok_iff {s : String} :
    Decoder.text reading = .ok s ↔ reading = .scalar (.text (some s)) := by
  constructor
  · intro h
    unfold Decoder.text at h
    split at h
    · cases h
      rfl
    · cases h
  · rintro rfl
    rfl

theorem canonical_ofText {parse : String → Except Fault α} {print : α → String}
    (h : OneText parse print) : (Decoder.ofText parse).Canonical fun a => .text (print a) := by
  intro reading a
  rw [Decoder.ofText, bind_eq_ok_iff, Value.reading]
  constructor
  · rintro ⟨s, hread, hparse⟩
    rw [text_eq_ok_iff.1 hread, h.print_parse s a hparse]
  · rintro rfl
    exact ⟨print a, rfl, h.parse_print a⟩

theorem Canonical.items (h : decoder.Canonical write) {closed : Bool} {readings : List Reading}
    {as : List α} :
    Decoder.items decoder closed readings = .ok as ↔
      readings = as.map (fun a => (write a).reading) ∧ closed = true := by
  induction readings generalizing as with
  | nil => cases closed <;> cases as <;> simp [Decoder.items]
  | cons reading readings ih =>
    rw [Decoder.items, bind_eq_ok_iff]
    constructor
    · rintro ⟨a, hread, hrest⟩
      obtain ⟨as', hitems, ⟨⟩⟩ := bind_eq_ok_iff.1 hrest
      obtain ⟨rfl, hclosed⟩ := ih.1 hitems
      rw [(h reading a).1 hread]
      exact ⟨rfl, hclosed⟩
    · rintro ⟨has, hclosed⟩
      cases as with
      | nil => cases has
      | cons a as =>
        obtain ⟨rfl, hreadings⟩ := List.cons.inj has
        exact ⟨a, (h _ a).2 rfl, bind_eq_ok_iff.2 ⟨as, ih.2 ⟨hreadings, hclosed⟩, rfl⟩⟩

theorem Canonical.list (h : decoder.Canonical write) :
    (Decoder.list decoder).Canonical fun as => .array (as.map write) := by
  intro reading as
  rw [Value.reading, Value.readings_eq_map, List.map_map]
  cases reading with
  | array readings closed =>
    rw [Decoder.list, h.items, Reading.array.injEq]
    rfl
  | _ => simp [Decoder.list]

/-- The entries of a map are its members, with the texts of the keys for names. -/
theorem entries_eq_ok_iff {key : String → Except Fault κ} {print : κ → String}
    (hkey : OneText key print) {closed : Bool} {members : List (Reading × Reading)}
    {es : List (κ × α)} :
    Decoder.entries key decoder closed members = .ok es ↔ closed = true ∧
      members.map (fun member => (member.1.name?, decoder member.2)) =
        es.map fun e => (some (print e.1), .ok e.2) := by
  induction members generalizing es with
  | nil => cases closed <;> cases es <;> simp [Decoder.entries]
  | cons member members ih =>
    obtain ⟨n, r⟩ := member
    rw [Decoder.entries, bind_eq_ok_iff]
    constructor
    · rintro ⟨name, hname, hrest⟩
      obtain ⟨k, hk, hrest⟩ := bind_eq_ok_iff.1 hrest
      obtain ⟨a, hread, hrest⟩ := bind_eq_ok_iff.1 hrest
      obtain ⟨more, hmore, ⟨⟩⟩ := bind_eq_ok_iff.1 hrest
      obtain ⟨hclosed, hmembers⟩ := ih.1 hmore
      refine ⟨hclosed, ?_⟩
      rw [List.map_cons, List.map_cons, hmembers, Decoder.name_eq_ok_iff.1 hname, hread,
        hkey.eq_ok_iff.1 hk]
    · rintro ⟨hclosed, hmembers⟩
      cases es with
      | nil => cases hmembers
      | cons e es =>
        obtain ⟨hfirst, hmembers⟩ := List.cons.inj hmembers
        obtain ⟨hname, hread⟩ := Prod.mk.inj hfirst
        refine ⟨print e.1, Decoder.name_eq_ok_iff.2 hname, bind_eq_ok_iff.2
          ⟨e.1, hkey.parse_print e.1, bind_eq_ok_iff.2 ⟨e.2, hread, bind_eq_ok_iff.2
            ⟨es, ih.2 ⟨hclosed, hmembers⟩, rfl⟩⟩⟩⟩

end Json.Decoder

theorem PublicKey.canonical : PublicKey.decoder.Canonical PublicKey.toJson :=
  Decoder.canonical_ofText oneText_ofText

theorem Nonce.canonical : Nonce.decoder.Canonical Nonce.toJson :=
  Decoder.canonical_ofText (oneText_ofBase64.mapError _)

theorem Salt.canonical : Salt.decoder.Canonical Salt.toJson :=
  Decoder.canonical_ofText (oneText_ofBase64.mapError _)

theorem Bytes.canonical : Bytes.decoder.Canonical Bytes.toJson :=
  Decoder.canonical_ofText (Base64.oneText.mapError _)

/-! ## Names of boxes -/

namespace Payload

variable {members : List (Reading × Reading)} {boxes : KeyMap KeyBox}

/-- Every member is a box under the text of a key, and a key has the box that stands
last under its text. -/
structure Labels (members : List (Reading × Reading)) (boxes : KeyMap KeyBox) : Prop where
  named : ∀ member ∈ members, ∃ (key : PublicKey) (box : KeyBox),
    member.1.name? = some key.toBase64 ∧ KeyBox.decoder member.2 = .ok box
  find?_iff : ∀ key box, boxes.find? key = some box ↔ ∃ reading,
    (Layout.under key.toBase64 members).getLast? = some reading ∧
      KeyBox.decoder reading = .ok box

/-- Nothing else is in the map. -/
theorem Labels.unique {other : KeyMap KeyBox} (h : Labels members boxes)
    (hother : Labels members other) : boxes = other :=
  KeyMap.ext_find? fun key => Option.ext fun box =>
    (h.find?_iff key box).trans (hother.find?_iff key box).symm

theorem map_decoder_under {es : List (PublicKey × KeyBox)}
    (h : members.map (fun member => (member.1.name?, KeyBox.decoder member.2)) =
      es.map fun e => (some e.1.toBase64, .ok e.2)) (key : PublicKey) :
    (Layout.under key.toBase64 members).map KeyBox.decoder =
      (es.filter (·.1 = key)).map fun e => .ok e.2 := by
  have hkey : ∀ e : PublicKey × KeyBox, e.1.toBase64 = key.toBase64 ↔ e.1 = key := fun e =>
    ⟨PublicKey.oneText_ofBase64.print_injective, congrArg PublicKey.toBase64⟩
  have hnamed := congrArg (fun l => (l.filter (·.1 = some key.toBase64)).map (·.2)) h
  simpa [Layout.under, List.filter_map, Function.comp_def, hkey] using hnamed

theorem labels_ofList {es : List (PublicKey × KeyBox)}
    (h : members.map (fun member => (member.1.name?, KeyBox.decoder member.2)) =
      es.map fun e => (some e.1.toBase64, .ok e.2)) : Labels members (.ofList es) where
  named member hmember := by
    have hin := List.mem_map_of_mem hmember (f := fun member =>
      (member.1.name?, KeyBox.decoder member.2))
    rw [h] at hin
    obtain ⟨e, -, he⟩ := List.mem_map.1 hin
    obtain ⟨hname, hread⟩ := Prod.mk.inj he
    exact ⟨e.1, e.2, hname.symm, hread.symm⟩
  find?_iff key box := by
    have hlast := congrArg List.getLast? (map_decoder_under h key)
    rw [List.getLast?_map, List.getLast?_map] at hlast
    rw [KeyMap.find?_ofList, ← List.head?_filter, List.filter_reverse, List.head?_reverse,
      ← Option.map_eq_some_iff, hlast]
    cases (es.filter (·.1 = key)).getLast? <;> simp

/-- The boxes are read from a map that labels them with the texts of keys, and from
nothing else. -/
theorem boxesDecoder_eq_ok_iff {reading : Reading} :
    boxesDecoder reading = .ok boxes ↔
      ∃ members, reading = .object members true ∧ Labels members boxes := by
  rw [boxesDecoder, map_eq_ok_iff]
  constructor
  · rintro ⟨es, hread, rfl⟩
    cases reading with
    | object members closed =>
      obtain ⟨rfl, hmembers⟩ := (Decoder.entries_eq_ok_iff PublicKey.oneText_ofText).1 hread
      exact ⟨members, rfl, labels_ofList hmembers⟩
    | broken => cases hread
    | scalar scalar => cases hread
    | array items closed => cases hread
  · rintro ⟨members, rfl, hlabels⟩
    -- Each member is an entry of its own, so the members are those of a list of entries.
    have hrange : members.map (fun member => (member.1.name?, KeyBox.decoder member.2)) ∈
        Set.range (List.map fun e : PublicKey × KeyBox =>
          (some e.1.toBase64, (.ok e.2 : Except Fault KeyBox))) := by
      rw [Set.range_list_map]
      intro pair hpair
      obtain ⟨member, hmember, rfl⟩ := List.mem_map.1 hpair
      obtain ⟨key, box, hname, hread⟩ := hlabels.named member hmember
      exact ⟨(key, box), by rw [hname, hread]⟩
    obtain ⟨es, hes⟩ := hrange
    exact ⟨es, (Decoder.entries_eq_ok_iff PublicKey.oneText_ofText).2 ⟨rfl, hes.symm⟩,
      (labels_ofList hes.symm).unique hlabels⟩

end Payload

/-- Base64 texts and the bytes, keys, nonces and salts that they stand for go
together one to one. Wherever a document names a key, be it as a recipient, as the
name of a box or as a key to forward to, it is by the one text of that key. -/
theorem one_text_each :
    (∀ text bs, Base64.decode text = .ok bs ↔ text = Base64.encode bs) ∧
      (∀ size text, (∃ octets : Octets size, Base64.decodeOctets text = .ok octets) ↔
        ∃ bs, text = Base64.encode bs ∧ bs.length = size) ∧
      (∀ size, OneText (@Base64.decodeOctets size) fun octets => Base64.encode octets.toBytes) ∧
      OneText PublicKey.parse PublicKey.toBase64 ∧
      (∀ text other key, PublicKey.parse text = .ok key → PublicKey.parse other = .ok key →
        text = other) ∧
      PublicKey.decoder.Canonical PublicKey.toJson ∧
      Nonce.decoder.Canonical Nonce.toJson ∧
      Salt.decoder.Canonical Salt.toJson ∧
      Bytes.decoder.Canonical Bytes.toJson ∧
      Decoder.Canonical (Payload.layout.field .recipients).read
        (fun keys : List PublicKey => .array (keys.map PublicKey.toJson)) ∧
      Decoder.Canonical (Config.layout.field .forwarding).read
        (fun keys : List PublicKey => .array (keys.map PublicKey.toJson)) ∧
      ∀ reading (boxes : KeyMap KeyBox), (Payload.layout.field .boxes).read reading = .ok boxes ↔
        ∃ members, reading = .object members true ∧ Payload.Labels members boxes := by
  refine ⟨fun _ _ => Base64.decode_eq_ok_iff, fun size text => ?_, Base64.oneText_octets,
    PublicKey.oneText_parse, fun text other key htext hother => ?_, PublicKey.canonical,
    Nonce.canonical, Salt.canonical, Bytes.canonical, PublicKey.canonical.list,
    PublicKey.canonical.list, fun _ _ => Payload.boxesDecoder_eq_ok_iff⟩
  · rw [Base64.exists_decodeOctets_eq_ok_iff]
    simp only [Base64.decode_eq_ok_iff]
  · rw [← PublicKey.oneText_parse.print_parse text key htext,
      PublicKey.oneText_parse.print_parse other key hother]

/-- The text of the key of all zeros. With a bit left over or without its padding it
would stand for the same bytes, but nothing else is read as this key. -/
theorem one_text_each_zero :
    let text := "AAAAAAAAAAAAAAAAAAAAAAAAAAAAAAAAAAAAAAAAAAA="
    PublicKey.parse text = .ok .zero ∧
      PublicKey.parse "AAAAAAAAAAAAAAAAAAAAAAAAAAAAAAAAAAAAAAAAAAB=" =
        .error (.recipient (.malformed (.malformed (.lastSymbol 66 42)))) ∧
      PublicKey.parse "AAAAAAAAAAAAAAAAAAAAAAAAAAAAAAAAAAAAAAAAAAA" =
        .error (.recipient (.malformed (.malformed .padding))) ∧
      ∀ other, PublicKey.parse other = .ok .zero → other = text := by
  intro text
  have htext : PublicKey.parse text = .ok .zero := by decide +kernel
  refine ⟨htext, by decide +kernel, by decide +kernel, fun other hother => ?_⟩
  obtain ⟨-, -, -, -, hsame, -⟩ := one_text_each
  exact hsame other text .zero hother htext

end Envelope
