import Envelope.Proofs.Defaults
import Envelope.Proofs.Jobs
import Envelope.Steps

/-!
# Which configurations are admitted

A configuration comes back from its text as it was, or with the error that
checking it gives; no text gets around the check, and a pool is made from a
configuration exactly if it passes. A pool that was made has the permits that
its configuration names, never more than it can count, and a derivation with the
default options is sure of its permits and of its memory.
-/

namespace Envelope

open Json

namespace Config

variable {config : Config} {text : Bytes} {error : EnclaveError}

/-- Settings are refused as a matter of the configuration. -/
theorem kind_of_validate (h : config.validate = .error error) : error.kind = .setup := by
  unfold validate at h
  cases hfault : config.fault? with
  | none =>
    rw [hfault] at h
    cases h
  | some fault =>
    rw [hfault] at h
    cases h
    rfl

/-- The text of a configuration is decoded as the check of the configuration says. -/
theorem decode_write {style : Style} (hs : style.Blank) (config : Config) :
    decode (config.toJson.write style) = config.validate.map fun _ => config :=
  decode_of_read (inverts.decode_write hs config)

/-- Whatever a text spells, decoding it is reading it and checking what was read. -/
theorem decode_eq_ok_iff :
    decode text = .ok config ↔
      Json.decode decoder text = .ok config ∧ config.validate = .ok () := by
  constructor
  · intro h
    obtain ⟨read, hread, hchecked⟩ := bind_eq_ok_iff.1 h
    obtain ⟨⟨⟩, hvalid, ⟨⟩⟩ := bind_eq_ok_iff.1 hchecked
    exact ⟨mapError_eq_ok_iff.1 hread, hvalid⟩
  · rintro ⟨hread, hvalid⟩
    rw [decode_of_read hread, hvalid]
    rfl

end Config

namespace Pool

variable {config : Config} {pool : Pool}

theorem create_eq (config : Config) :
    create config = config.validate.map fun _ => idle config false := by
  unfold create
  cases config.validate <;> rfl

/-- A pool with all the permits that a configuration names. -/
structure Equipped (config : Config) (pool : Pool) : Prop where
  workers_eq : pool.workers = config.unlocks.toNat
  maxWorkers_eq : pool.maxWorkers = config.unlocks.toNat
  memory_eq : pool.memory = config.memoryBudget.toNat
  /-- No more permits are asked for than can be counted. -/
  workers_le : pool.workers ≤ maxPermits.toNat
  memory_le : pool.memory ≤ maxPermits.toNat
  /-- The default options are those of the configuration. Work with them is neither
  refused nor has to wait. -/
  options_eq : pool.protector.options = config.options
  holding_eq : ∀ {α : Type} (work : Sampler EnclaveError α) (stream : Bytes),
    pool.holding config.options work stream = some ⟨pool, work stream⟩
  /-- A single derivation with them stays within its limit. -/
  derives : ∀ suite password salt, ∃ key,
    Protector.derive suite pool.protector.maxMemory config.options password salt = .ok key

theorem gated_options (hmemory : config.options.memory ≤ config.memoryBudget) {α : Type}
    (work : Sampler EnclaveError α) : gated config false config.options work = work := by
  rw [gated, if_neg (UInt32.not_lt.2 hmemory)]
  rfl

theorem equipped_of_create (h : create config = .ok pool) : Equipped config pool := by
  obtain ⟨hvalid, rfl⟩ : config.validate = .ok () ∧ pool = idle config false :=
    create_eq_ok_iff.1 h
  obtain ⟨-, hmany, hoptions, hmemory, -⟩ := Config.validate_eq_ok_iff.1 hvalid
  have hbudget : config.memoryBudget.toNat ≤ maxPermits.toNat := by
    rw [← UInt32.toNat_toUInt64]
    exact UInt64.le_iff_toNat_le.1 config.memoryBudget_le_maxPermits
  constructor
  · rfl
  · rfl
  · rfl
  · exact UInt64.le_iff_toNat_le.1 hmany
  · exact hbudget
  · rfl
  · intro α work stream
    rw [holding_idle hvalid, gated_options hmemory]
  · intro suite password salt
    exact ⟨_, Protector.derive_eq_ok_iff.2 ⟨hoptions, hmemory, rfl⟩⟩

end Pool

namespace Config

/-- Reading, checking and building a pool agree. The text of a configuration is
decoded to it if it is valid, and else to the error of the check; nothing invalid
comes out of any text; and a pool is made of a configuration exactly if it is
valid, with the same error if it is not. What passes never asks for more permits
than can be counted, and has a budget for its default options. -/
theorem admitted_throughout (config : Config) {style : Style} (hs : style.Blank) :
    ((∀ decoded, decode (config.toJson.write style) = .ok decoded ↔
        config.validate = .ok () ∧ decoded = config) ∧
      (∀ error, decode (config.toJson.write style) = .error error ↔
        config.validate = .error error) ∧
      ∀ error, config.validate = .error error → error.kind = .setup) ∧
    (∀ text, decode text = .ok config →
      config.validate = .ok () ∧ ∃ pool, Pool.create config = .ok pool) ∧
    ((∃ pool, Pool.create config = .ok pool) ↔ config.validate = .ok ()) ∧
    (∀ error, Pool.create config = .error error ↔ config.validate = .error error) ∧
    ∀ pool, Pool.create config = .ok pool → Pool.Equipped config pool := by
  have hcreate : config.validate = .ok () → ∃ pool, Pool.create config = .ok pool :=
    fun hvalid => ⟨_, Pool.create_eq_idle hvalid⟩
  refine ⟨⟨?_, ?_, fun _ => kind_of_validate⟩, ?_, ?_, ?_, fun _ => Pool.equipped_of_create⟩
  · intro decoded
    rw [decode_write hs]
    cases config.validate with
    | ok => simp [Except.map, eq_comm]
    | error error => simp [Except.map]
  · intro error
    rw [decode_write hs]
    cases config.validate <;> simp [Except.map]
  · intro text htext
    have hvalid := (decode_eq_ok_iff.1 htext).2
    exact ⟨hvalid, hcreate hvalid⟩
  · refine ⟨?_, hcreate⟩
    rintro ⟨pool, hpool⟩
    exact (Pool.create_eq_ok_iff.1 hpool).1
  · intro error
    rw [Pool.create_eq]
    cases config.validate <;> simp [Except.map]

/-- The most permits and the widest budget there are; one unlock more than can be
counted; a budget that is 1 KiB too small; and a text that leaves settings out. -/
theorem admitted_throughout_limits :
    let widest : Config := ⟨⟨.hybrid, 4294967295, 1, 16777215, 19⟩, 2305843009213693951,
      4294967295, [⟨⟨List.replicate 32 1, rfl⟩⟩]⟩
    let crowded : Config := { widest with unlocks := 2305843009213693952 }
    let narrow : Config := { widest with memoryBudget := 4294967294 }
    let loose : Value := .object [
      ("remark", .text "none"), ("max_concurrent_unlocks", .number 3),
      ("kdf", .array [.text "id", .number 64, .number 1, .number 2])]
    Style.compact.Blank ∧
      decode (widest.toJson.write .compact) = .ok widest ∧
      (∃ pool, Pool.create widest = .ok pool ∧ Pool.Equipped widest pool) ∧
      decode (crowded.toJson.write .compact) = .error (.setup .manyUnlocks) ∧
      Pool.create crowded = .error (.setup .manyUnlocks) ∧
      decode (narrow.toJson.write .compact) =
        .error (.setup (.defaultMemory 4294967295 4294967294)) ∧
      Pool.create narrow = .error (.setup (.defaultMemory 4294967295 4294967294)) ∧
      decode (loose.write .indented) = .ok ⟨⟨.hybrid, 64, 1, 2, 19⟩, 3, 2097152, []⟩ ∧
      ∃ pool, Pool.create ⟨⟨.hybrid, 64, 1, 2, 19⟩, 3, 2097152, []⟩ = .ok pool := by
  intro widest crowded narrow loose
  have hs := Style.blank_compact
  have hwidest : widest.validate = .ok () := by decide +kernel
  have hcrowded : crowded.validate = .error (.setup .manyUnlocks) := by decide +kernel
  have hnarrow : narrow.validate = .error (.setup (.defaultMemory 4294967295 4294967294)) := by
    decide +kernel
  have hloose : decode (loose.write .indented) =
      .ok ⟨⟨.hybrid, 64, 1, 2, 19⟩, 3, 2097152, []⟩ := by
    decide +kernel
  obtain ⟨⟨hread, -, -⟩, -, hmade, -, hpool⟩ := admitted_throughout widest hs
  obtain ⟨⟨-, hrefused, -⟩, -, -, hunmade, -⟩ := admitted_throughout crowded hs
  obtain ⟨⟨-, hrefused', -⟩, -, -, hunmade', -⟩ := admitted_throughout narrow hs
  obtain ⟨pool, hcreate⟩ := hmade.2 hwidest
  refine ⟨hs, (hread _).2 ⟨hwidest, rfl⟩, ⟨pool, hcreate, hpool pool hcreate⟩,
    (hrefused _).2 hcrowded, (hunmade _).2 hcrowded, (hrefused' _).2 hnarrow,
    (hunmade' _).2 hnarrow, hloose, ?_⟩
  exact ((admitted_throughout _ hs).2.1 _ hloose).2

end Config

end Envelope
