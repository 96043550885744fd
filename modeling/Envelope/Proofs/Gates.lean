import Envelope.Proofs.Custody
import Envelope.Proofs.Permits
import Mathlib.Logic.Basic

/-!
# Which options pass

Options are checked in four places: on their own, in a key record that is read
from storage, in a configuration, and when a key is derived. `Acceptable` says
in whole numbers what passes in all of them; beyond it a configuration only asks
for a budget and a derivation for a limit. The number of lanes is bounded so low
that a product of eight and the lanes that loses its high bits lets nothing more
through.
-/

namespace Envelope

namespace Kdf.Options

/-- The options that Argon2 takes. -/
structure Acceptable (options : Options) : Prop where
  version : options.version.toNat = 16 ∨ options.version.toNat = 19
  iterations : 1 ≤ options.iterations.toNat
  lanes : 1 ≤ options.parallelism.toNat
  lanes_le : options.parallelism.toNat ≤ 16777215
  memory : 8 * options.parallelism.toNat ≤ options.memory.toNat

/-- A way to compute the product of eight and a number of lanes: as it is, or
without the bits that are beyond a word. -/
def EightTimes (product : UInt32 → Nat) : Prop :=
  ∀ lanes, product lanes = 8 * lanes.toNat ∨ product lanes = 8 * lanes.toNat % UInt32.size

/-- The checks of options, with the product of eight and the lanes computed in
some way. -/
def faultBy? (product : UInt32 → Nat) (options : Options) : Option ConfigurationFault :=
  if options.version ≠ 16 ∧ options.version ≠ 19 then some (.version options.version)
  else if options.memory < 8 ∨ options.memory.toNat < product options.parallelism then
    some (.cost .memory)
  else if options.iterations = 0 then some (.cost .iterations)
  else if options.parallelism = 0 then some (.cost .noLanes)
  else if 16777215 < options.parallelism then some (.cost .manyLanes)
  else none

variable {options : Options} {product : UInt32 → Nat}

/-- The library computes the product as it is. -/
theorem fault?_eq (options : Options) :
    options.fault? = options.faultBy? fun lanes => 8 * lanes.toNat := by
  unfold fault? faultBy? costFault?
  simp only [apply_ite (Option.map ConfigurationFault.cost), Option.map_some, Option.map_none]

/-- Nothing is cut off from the product of a number of lanes that is let through. -/
theorem EightTimes.eq_of_le (h : EightTimes product) (lanes : UInt32)
    (hlanes : lanes.toNat ≤ 16777215) : product lanes = 8 * lanes.toNat := by
  have hword : 8 * lanes.toNat < UInt32.size := by
    have hsize : UInt32.size = 4294967296 := rfl
    omega
  rcases h lanes with hexact | hcut
  · exact hexact
  · rw [hcut, Nat.mod_eq_of_lt hword]

theorem faultBy?_eq_none_iff (h : EightTimes product) :
    options.faultBy? product = none ↔ options.Acceptable := by
  have hproduct := h.eq_of_le options.parallelism
  simp only [faultBy?, ne_eq, ← UInt32.toNat_inj, UInt32.lt_iff_toNat_lt, UInt32.reduceToNat,
    ite_eq_iff, reduceCtorEq, and_false, false_or, and_true]
  constructor
  · rintro ⟨hversion, hmemory, hiterations, hlanes, hmany⟩
    -- The product is compared before the lanes are bounded: what a cut one let through
    -- is known to have been exact only from the last check.
    have hexact := hproduct (Nat.not_lt.1 hmany)
    constructor <;> omega
  · rintro ⟨hversion, hiterations, hlanes, hmany, hmemory⟩
    have hexact := hproduct hmany
    refine ⟨?_, ?_, ?_, ?_, ?_⟩ <;> omega

theorem validate_eq_ok_iff : options.validate = .ok () ↔ options.Acceptable := by
  have hexact : EightTimes fun lanes => 8 * lanes.toNat := fun _ => .inl rfl
  rw [← faultBy?_eq_none_iff hexact, ← fault?_eq, fault?_eq_none_iff]

end Kdf.Options

/-- All gates agree on options. What passes is what is acceptable in whole
numbers, also where the product of eight and the lanes is computed within a word;
a record asks for nothing else, a configuration for its budget besides, and a
derivation for its limit. -/
theorem Kdf.Options.gates_agree (suite : Suite) (options : Kdf.Options) :
    (options.validate = .ok () ↔ options.Acceptable) ∧
    (∀ product, EightTimes product →
      (options.faultBy? product = none ↔ options.Acceptable)) ∧
    (∀ record : KeyRecord, record.options = options →
      Json.decode KeyRecord.decoder record.encode = .ok record) ∧
    (∀ text record, Json.decode KeyRecord.decoder text = .ok record → record.options = options →
      ∀ read, KeyRecord.decode text = .ok read ↔ options.validate = .ok () ∧ read = record) ∧
    (∀ config : Config, config.options = options → config.unlocks ≠ 0 →
      config.unlocks ≤ maxPermits → .zero ∉ config.forwarding →
      (config.validate = .ok () ↔
        options.validate = .ok () ∧ options.memory ≤ config.memoryBudget)) ∧
    ∀ limit password salt,
      (∃ key, Protector.derive suite limit options password salt = .ok key) ↔
        options.validate = .ok () ∧ options.memory ≤ limit := by
  refine ⟨validate_eq_ok_iff, fun product => faultBy?_eq_none_iff, ?_, ?_, ?_, ?_⟩
  · intro record _
    exact KeyRecord.inverts.decode_write Json.Style.blank_indented record
  · rintro text record hread rfl read
    exact KeyRecord.decode_eq_ok_iff hread
  · rintro config rfl hsome hmany hzero
    rw [Config.validate_eq_ok_iff]
    simp [hsome, hmany, hzero]
  · intro limit password salt
    simp only [Protector.derive_eq_ok_iff, exists_and_left, exists_eq, and_true]

/-- With 2^29 lanes the product of eight and the lanes is zero within a word, and
any memory would do for it. No gate lets such options through; with the most lanes
that are let through, the least memory is 128 MiB and a little less. -/
theorem Kdf.Options.gates_agree_wrapped :
    let wrapped : UInt32 → Nat := fun lanes => (8 * lanes).toNat
    let wide : Kdf.Options := ⟨.hybrid, 8, 1, 536870912, 19⟩
    let full : Kdf.Options := ⟨.dependent, 134217720, 1, 16777215, 16⟩
    let record : KeyRecord := ⟨none, .locked, wide, ⟨.zero⟩, ⟨.zero⟩, []⟩
    let config : Config := ⟨full, 1, 134217719, []⟩
    EightTimes wrapped ∧ wrapped wide.parallelism = 0 ∧
      wide.faultBy? wrapped ≠ none ∧
      Json.decode KeyRecord.decoder record.encode = .ok record ∧
      (∀ read, KeyRecord.decode record.encode ≠ .ok read) ∧
      config.validate ≠ .ok () ∧
      (∃ key, Protector.derive .standard 134217720 full "" ⟨.zero⟩ = .ok key) := by
  intro wrapped wide full record config
  have hwrapped : EightTimes wrapped := fun lanes => .inr (UInt32.toNat_mul 8 lanes)
  have hwide : ¬wide.Acceptable := fun h => absurd h.lanes_le (by decide)
  have hfull : full.Acceptable := ⟨.inl rfl, by decide, by decide, by decide, by decide⟩
  obtain ⟨hvalid, hproduct, hrecord, hread, -, -⟩ := gates_agree .standard wide
  obtain ⟨hvalid', -, -, -, hconfig, hderive⟩ := gates_agree .standard full
  have hdecode := hrecord record rfl
  refine ⟨hwrapped, by decide, fun h => hwide ((hproduct wrapped hwrapped).1 h), hdecode, ?_, ?_, ?_⟩
  · intro read h
    exact hwide (hvalid.1 ((hread _ record hdecode rfl read).1 h).1)
  · intro h
    have hbudget := (hconfig config rfl (by decide) (by decide) (by decide)).1 h
    exact absurd hbudget.2 (by decide)
  · exact (hderive _ _ _).2 ⟨hvalid'.2 hfull, by decide⟩

end Envelope
