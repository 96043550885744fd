import Envelope.Enclave.Config
import Envelope.Proofs.Gates
import Envelope.Proofs.Omission

/-!
# Where defaults come in

A key record may do without its label, its lock state and the version of its
options; every other field that is missing is an error. A configuration may do
without any of its settings, and what is then made of given and default ones has
to be valid. The options inside a configuration are given as a whole or not at
all: a cost that is missing there is never taken from the default options.
-/

namespace Envelope

open Json

namespace Kdf.Options

variable {options : Options} {dropped : List Field} {other : Value}

/-- The options with the current version where the version is left out. -/
def defaulted (options : Options) (dropped : List Field) : Options :=
  { options with version := if .version ∈ dropped then currentVersion else options.version }

/-- The current version is as good as any. -/
theorem validate_defaulted (h : options.validate = .ok ()) (dropped : List Field) :
    (options.defaulted dropped).validate = .ok () := by
  obtain ⟨hversion, hiterations, hlanes, hmany, hmemory⟩ := validate_eq_ok_iff.1 h
  refine validate_eq_ok_iff.2 ⟨?_, hiterations, hlanes, hmany, hmemory⟩
  unfold defaulted
  split
  · exact .inr rfl
  · exact hversion

theorem values_defaulted (options : Options) (dropped : List Field) :
    layout.defaulted dropped options.values = (options.defaulted dropped).values := by
  funext i
  cases i with
  | version => exact Layout.defaulted_of_some rfl
  | _ => exact Layout.defaulted_of_none rfl

theorem decoder_without (h : options.toJson.Without (layout.names dropped) other)
    (hdropped : dropped ⊆ [.version]) :
    decoder other.reading = .ok (options.defaulted dropped) := by
  have hfallback : ∀ i ∈ dropped, (layout.field i).fallback ≠ none := by
    intro i hi
    cases List.mem_singleton.1 (hdropped hi)
    nofun
  rw [decoder, options.writes.read_without h hfallback, values_defaulted]
  rfl

/-- No variant and no cost has a default. -/
theorem decoder_without_missing (h : options.toJson.Without (layout.names dropped) other)
    (hdropped : ¬dropped ⊆ [.version]) :
    ∃ i ∈ dropped, decoder other.reading = .error (.missing (layout.field i).name) := by
  obtain ⟨i, hi, hversion⟩ : ∃ i ∈ dropped, i ≠ .version := by
    simpa [List.subset_def] using hdropped
  have hfallback : (layout.field i).fallback = none := by
    cases i <;> first | rfl | exact absurd rfl hversion
  obtain ⟨j, hj, -, hread⟩ := options.writes.read_without_missing h hi hfallback
  refine ⟨j, hj, ?_⟩
  rw [decoder, hread]
  rfl

end Kdf.Options

namespace KeyRecord

variable {record : KeyRecord} {dropped : List Field} {droppedOptions : List Kdf.Options.Field}
  {options value : Value}

/-- The record with what stands for the fields that are left out. -/
def defaulted (record : KeyRecord) (dropped : List Field)
    (droppedOptions : List Kdf.Options.Field) : KeyRecord where
  label := if .label ∈ dropped then none else record.label
  state := if .state ∈ dropped then .locked else record.state
  options := record.options.defaulted droppedOptions
  nonce := record.nonce
  salt := record.salt
  sealedKey := record.sealedKey

theorem values_defaulted (record : KeyRecord) (dropped : List Field)
    (droppedOptions : List Kdf.Options.Field) :
    layout.defaulted dropped
        (Function.update record.values .options (record.options.defaulted droppedOptions)) =
      (record.defaulted dropped droppedOptions).values := by
  funext i
  cases i with
  | label => exact Layout.defaulted_of_some rfl
  | state => exact Layout.defaulted_of_some rfl
  | _ => exact Layout.defaulted_of_none rfl

theorem replace_options (record : KeyRecord) (options : Value) :
    record.toJson.replace "aopts" options =
      layout.object (Function.update record.written .options options) record.given := by
  rw [toJson_eq]
  exact record.writes.replace_eq .options options

theorem decoder_without
    (hoptions : record.options.toJson.Without (Kdf.Options.layout.names droppedOptions) options)
    (hvalue : (record.toJson.replace "aopts" options).Without (layout.names dropped) value)
    (hdropped : dropped ⊆ [.label, .state]) (hnested : droppedOptions ⊆ [.version]) :
    decoder value.reading = .ok (record.defaulted dropped droppedOptions) := by
  have hread := Kdf.Options.decoder_without hoptions hnested
  have hwrites := record.writes.update (i := .options) (mem_given_iff.2 nofun) hread
  have hfallback : ∀ i ∈ dropped, (layout.field i).fallback ≠ none := by
    intro i hi
    have hi' := hdropped hi
    cases i <;> simp [layout] at hi' ⊢
  rw [replace_options] at hvalue
  rw [decoder, hwrites.read_without hvalue hfallback, values_defaulted]
  rfl

theorem decoder_of_read_eq_error {reading : Reading} {fault : Fault}
    (h : layout.read reading = .error fault) : decoder reading = .error fault := by
  rw [decoder, h]
  rfl

/-- A field of the record or of its options that has no default is reported. -/
theorem decoder_without_missing
    (hoptions : record.options.toJson.Without (Kdf.Options.layout.names droppedOptions) options)
    (hvalue : (record.toJson.replace "aopts" options).Without (layout.names dropped) value)
    (h : ¬(dropped ⊆ [.label, .state] ∧ droppedOptions ⊆ [.version])) :
    ∃ name ∈ layout.names dropped ++ Kdf.Options.layout.names droppedOptions,
      decoder value.reading = .error (.missing name) := by
  have hgiven : Field.options ∈ record.given := mem_given_iff.2 nofun
  by_cases hgone : .options ∈ dropped
  · -- Then it does not matter what the options would have been.
    have hvalue' := hvalue.of_replace (List.mem_map_of_mem hgone)
    rw [toJson_eq] at hvalue'
    obtain ⟨i, hi, -, hread⟩ := record.writes.read_without_missing hvalue' hgone rfl
    exact ⟨_, List.mem_append_left _ (List.mem_map_of_mem hi), decoder_of_read_eq_error hread⟩
  rw [replace_options] at hvalue
  by_cases hnested : droppedOptions ⊆ [.version]
  · obtain ⟨i, hi, hlabel, hstate⟩ : ∃ i ∈ dropped, i ≠ .label ∧ i ≠ .state := by
      simpa [List.subset_def, hnested] using h
    have hfallback : (layout.field i).fallback = none := by
      cases i <;> first | rfl | contradiction
    have hwrites := record.writes.update hgiven (Kdf.Options.decoder_without hoptions hnested)
    obtain ⟨j, hj, -, hread⟩ := hwrites.read_without_missing hvalue hi hfallback
    exact ⟨_, List.mem_append_left _ (List.mem_map_of_mem hj), decoder_of_read_eq_error hread⟩
  · obtain ⟨i, hi, hfault⟩ := Kdf.Options.decoder_without_missing hoptions hnested
    have hread := record.writes.read_without_fault hgiven hgone hfault hvalue
    exact ⟨_, List.mem_append_right _ (List.mem_map_of_mem hi), decoder_of_read_eq_error hread⟩

end KeyRecord

namespace Config

theorem count_inverts : Decoder.Inverts countDecoder fun count => .number count.toNat :=
  .unsigned (Nat.le_refl _) UInt64.toNat_lt fun _ => UInt64.ofNat_toNat

/-- What is written for a field. -/
def written (config : Config) : Field → Value
  | .options => config.options.toJson
  | .unlocks => .number config.unlocks.toNat
  | .memoryBudget => .number config.memoryBudget.toNat
  | .forwarding => .array (config.forwarding.map PublicKey.toJson)

/-- What is read from it. -/
def values (config : Config) : Layout.Values layout
  | .options => config.options
  | .unlocks => config.unlocks
  | .memoryBudget => config.memoryBudget
  | .forwarding => config.forwarding

theorem writes (config : Config) : layout.Writes layout.order config.written config.values where
  named := by intro i; cases i <;> rfl
  nodup := by decide
  reads i _ := by
    cases i
    · exact Kdf.Options.inverts.read config.options
    · exact count_inverts.read config.unlocks
    · exact Kdf.Options.word_inverts.read config.memoryBudget
    · exact PublicKey.inverts.list.read config.forwarding
  rest i hi := absurd (layout.mem_order i) hi

theorem inverts : Decoder.Inverts decoder toJson where
  fits config :=
    ⟨Kdf.Options.inverts.fits config.options, count_inverts.fits config.unlocks,
      Kdf.Options.word_inverts.fits config.memoryBudget,
      PublicKey.inverts.list.fits config.forwarding, trivial⟩
  read config := by
    have hread : layout.read config.toJson.reading = .ok config.values :=
      config.writes.read_eq
    rw [decoder, hread]
    rfl

/-- The settings of a text are decoded exactly if they are valid. -/
theorem decode_of_read {text : Bytes} {config : Config}
    (h : Json.decode decoder text = .ok config) :
    decode text = config.validate.map fun _ => config := by
  rw [decode, h]
  show (config.validate >>= fun _ => pure config) = _
  cases config.validate <;> rfl

variable {config : Config} {dropped : List Field} {droppedOptions : List Kdf.Options.Field}
  {options value : Value}

/-- The default settings for those that are left out, and the others as they are
given. -/
def defaulted (config : Config) (dropped : List Field)
    (droppedOptions : List Kdf.Options.Field) : Config where
  options :=
    if .options ∈ dropped then standard.options else config.options.defaulted droppedOptions
  unlocks := if .unlocks ∈ dropped then standard.unlocks else config.unlocks
  memoryBudget := if .memoryBudget ∈ dropped then standard.memoryBudget else config.memoryBudget
  forwarding := if .forwarding ∈ dropped then standard.forwarding else config.forwarding

theorem replace_options (config : Config) (options : Value) :
    config.toJson.replace "kdf" options =
      layout.object (Function.update config.written .options options) layout.order :=
  config.writes.replace_eq .options options

theorem decoder_without
    (hoptions : config.options.toJson.Without (Kdf.Options.layout.names droppedOptions) options)
    (hvalue : (config.toJson.replace "kdf" options).Without (layout.names dropped) value)
    (h : .options ∈ dropped ∨ droppedOptions ⊆ [.version]) :
    decoder value.reading = .ok (config.defaulted dropped droppedOptions) := by
  have hfallback : ∀ i ∈ dropped, (layout.field i).fallback ≠ none := by
    intro i _
    cases i <;> nofun
  by_cases hgone : .options ∈ dropped
  · have hvalues : layout.defaulted dropped config.values =
        (config.defaulted dropped droppedOptions).values := by
      funext i
      cases i with
      | options => exact (Layout.defaulted_of_mem hgone rfl).trans (if_pos hgone).symm
      | _ => exact Layout.defaulted_of_some rfl
    have hvalue' := hvalue.of_replace (List.mem_map_of_mem hgone)
    rw [decoder, config.writes.read_without hvalue' hfallback, hvalues]
    rfl
  · have hvalues : layout.defaulted dropped (Function.update config.values .options
        (config.options.defaulted droppedOptions)) =
        (config.defaulted dropped droppedOptions).values := by
      funext i
      cases i <;> exact Layout.defaulted_of_some rfl
    have hread := Kdf.Options.decoder_without hoptions (h.resolve_left hgone)
    have hwrites := config.writes.update (i := Field.options) (layout.mem_order .options) hread
    rw [replace_options] at hvalue
    rw [decoder, hwrites.read_without hvalue hfallback, hvalues]
    rfl

/-- The default options do not help out where options are given. -/
theorem decoder_without_missing
    (hoptions : config.options.toJson.Without (Kdf.Options.layout.names droppedOptions) options)
    (hvalue : (config.toJson.replace "kdf" options).Without (layout.names dropped) value)
    (hthere : .options ∉ dropped) (hdropped : ¬droppedOptions ⊆ [.version]) :
    ∃ name ∈ Kdf.Options.layout.names droppedOptions,
      decoder value.reading = .error (.missing name) := by
  obtain ⟨i, hi, hfault⟩ := Kdf.Options.decoder_without_missing hoptions hdropped
  rw [replace_options] at hvalue
  have hread := config.writes.read_without_fault (layout.mem_order .options) hthere hfault hvalue
  exact ⟨_, List.mem_map_of_mem hi, by rw [decoder, hread]; rfl⟩

end Config

/-- Fields that are missing never weaken what is stored. A valid record from which
fields were taken, and whose options stand there without some of theirs, is decoded
only if nothing is missing but the label, the state and the version. A configuration
is validated with the default settings for those that are missing, and is refused
where the options are there without their variant or a cost. -/
theorem decode_without_fields {style : Style} (hs : style.Blank) :
    (∀ (record : KeyRecord) dropped droppedOptions options value,
      record.options.validate = .ok () →
      record.options.toJson.Without (Kdf.Options.layout.names droppedOptions) options →
      (record.toJson.replace "aopts" options).Without (KeyRecord.layout.names dropped) value →
      (dropped ⊆ [.label, .state] ∧ droppedOptions ⊆ [.version] →
        KeyRecord.decode (value.write style) = .ok (record.defaulted dropped droppedOptions)) ∧
      (¬(dropped ⊆ [.label, .state] ∧ droppedOptions ⊆ [.version]) →
        ∃ name ∈ KeyRecord.layout.names dropped ++ Kdf.Options.layout.names droppedOptions,
          KeyRecord.decode (value.write style) =
            .error (.configuration (.record (.missing name))))) ∧
    ∀ (config : Config) dropped droppedOptions options value,
      config.options.toJson.Without (Kdf.Options.layout.names droppedOptions) options →
      (config.toJson.replace "kdf" options).Without (Config.layout.names dropped) value →
      (.options ∈ dropped ∨ droppedOptions ⊆ [.version] →
        Config.decode (value.write style) = (config.defaulted dropped droppedOptions).validate.map
          fun _ => config.defaulted dropped droppedOptions) ∧
      (.options ∉ dropped → ¬droppedOptions ⊆ [.version] →
        ∃ name ∈ Kdf.Options.layout.names droppedOptions,
          Config.decode (value.write style) = .error (.setup (.malformed (.missing name)))) := by
  constructor
  · intro record dropped droppedOptions options value hvalid hoptions hvalue
    have hfits : value.Fits := hvalue.fits <| Value.fits_replace _ (KeyRecord.inverts.fits record)
      (hoptions.fits (Kdf.Options.inverts.fits record.options))
    have hdecode := decode_write_eq hs hfits KeyRecord.decoder
    constructor
    · rintro ⟨hdropped, hnested⟩
      rw [KeyRecord.decoder_without hoptions hvalue hdropped hnested] at hdecode
      refine (KeyRecord.decode_eq_ok_iff hdecode).2 ⟨?_, rfl⟩
      exact Kdf.Options.validate_defaulted hvalid droppedOptions
    · intro h
      obtain ⟨name, hname, hread⟩ := KeyRecord.decoder_without_missing hoptions hvalue h
      refine ⟨name, hname, ?_⟩
      rw [KeyRecord.decode, hdecode, hread]
      rfl
  · intro config dropped droppedOptions options value hoptions hvalue
    have hfits : value.Fits := hvalue.fits <| Value.fits_replace _ (Config.inverts.fits config)
      (hoptions.fits (Kdf.Options.inverts.fits config.options))
    have hdecode := decode_write_eq hs hfits Config.decoder
    constructor
    · intro h
      exact Config.decode_of_read (hdecode.trans (Config.decoder_without hoptions hvalue h))
    · intro hthere hdropped
      obtain ⟨name, hname, hread⟩ :=
        Config.decoder_without_missing hoptions hvalue hthere hdropped
      refine ⟨name, hname, ?_⟩
      rw [Config.decode, hdecode, hread]
      rfl

/-- A record without its label, its state and the version of its options; a
configuration that is valid with defaults for what it leaves out; one whose budget
is too small for the default options; and options that do without a cost. -/
theorem decode_without_fields_mixed :
    let options : Kdf.Options := ⟨.hybrid, 64, 1, 1, 16⟩
    let record : KeyRecord := ⟨some "a", .unlocked, options, ⟨.zero⟩, ⟨.zero⟩, [1, 2]⟩
    let config : Config := ⟨options, 3, 1024, []⟩
    let costs : Value := .object
      [("parallelism", .number 1), ("iterations", .number 1), ("memory", .number 64),
        ("variant", .text "id")]
    let free : Value := .object
      [("variant", .text "id"), ("memory", .number 64), ("parallelism", .number 1)]
    let stored : Value := .object
      [("aopts", costs), ("snonce", Nonce.toJson ⟨.zero⟩), ("asalt", Salt.toJson ⟨.zero⟩),
        ("sbox", Bytes.toJson [1, 2])]
    record.options.validate = .ok () ∧ config.validate = .ok () ∧
      KeyRecord.decode (stored.write .compact) =
        .ok ⟨none, .locked, ⟨.hybrid, 64, 1, 1, 19⟩, ⟨.zero⟩, ⟨.zero⟩, [1, 2]⟩ ∧
      Config.decode ((Value.object [("kdf", costs), ("max_concurrent_unlocks", .number 3)]).write
        .compact) = .ok ⟨⟨.hybrid, 64, 1, 1, 19⟩, 3, 2097152, []⟩ ∧
      Config.decode ((Value.object [("kdf_memory_budget_kib", .number 1024)]).write .compact) =
        .error (.setup (.defaultMemory 1048576 1024)) ∧
      ∃ name, Config.decode ((Value.object [("kdf", free)]).write .compact) =
        .error (.setup (.malformed (.missing name))) := by
  intro options record config costs free stored
  obtain ⟨hrecord, hconfig⟩ := decode_without_fields Style.blank_compact
  have hvalid : record.options.validate = .ok () := rfl
  have hcosts : options.toJson.Without (Kdf.Options.layout.names [.version]) costs :=
    ⟨_, rfl, List.reverse_perm (options.toJson.members.take 4)⟩
  have hfree : options.toJson.Without (Kdf.Options.layout.names [.iterations, .version]) free :=
    ⟨_, rfl, .refl _⟩
  refine ⟨hvalid, rfl, ?_, ?_, ?_, ?_⟩
  · exact (hrecord record [.label, .state] [.version] costs stored hvalid hcosts
      ⟨_, rfl, .refl _⟩).1 (by decide)
  · exact (hconfig config [.memoryBudget, .forwarding] [.version] costs _ hcosts
      ⟨_, rfl, .refl _⟩).1 (by decide)
  · exact (hconfig config [.options, .unlocks, .forwarding] [.version] costs _ hcosts
      ⟨_, rfl, .refl _⟩).1 (by decide)
  · obtain ⟨name, -, hname⟩ := (hconfig config [.unlocks, .memoryBudget, .forwarding]
      [.iterations, .version] free _ hfree ⟨_, rfl, .refl _⟩).2 (by decide) (by decide)
    exact ⟨name, hname⟩

end Envelope
