import Envelope.Enclave.Error
import Envelope.Kdf.Options

/-!
# Configuration of an enclave

Every setting has a default. A setting that is given is taken as a whole: the
options of a key derivation are never filled up from the default ones.
-/

namespace Envelope

@[ext] structure Config where
  /-- The options of new key records. -/
  options : Kdf.Options
  /-- How many unlocks may run at the same time. -/
  unlocks : UInt64
  /-- The memory of all unlocks that run at the same time, in KiB. -/
  memoryBudget : UInt32
  /-- Keys that every payload is sealed for as well. -/
  forwarding : List PublicKey
deriving DecidableEq

namespace Config

def standard : Config where
  options := .standard
  unlocks := 2
  memoryBudget := 2097152
  forwarding := []

/-- What is wrong with the settings, in the order in which it is looked at. -/
def fault? (config : Config) : Option SetupFault :=
  if config.unlocks = 0 then some .noUnlocks
  else if maxPermits < config.unlocks then some .manyUnlocks
  else if maxPermits < config.memoryBudget.toUInt64 then some (.wideBudget config.memoryBudget)
  else
    match config.options.validate with
    | .error error => some (.options error)
    | .ok () =>
      if config.memoryBudget < config.options.memory then
        some (.defaultMemory config.options.memory config.memoryBudget)
      else if config.forwarding.any (· = .zero) then some .zeroForwarding
      else none

def validate (config : Config) : Except EnclaveError Unit :=
  match config.fault? with
  | some fault => .error (.setup fault)
  | none => .ok ()

/-! ## Format -/

def countDecoder : Json.Decoder UInt64 :=
  fun reading => (Json.Decoder.unsigned UInt64.size "usize" reading).map UInt64.ofNat

inductive Field
  | options
  | unlocks
  | memoryBudget
  | forwarding
deriving DecidableEq, Repr

def layout : Json.Layout Field where
  title := "EnclaveConfig"
  order := [.options, .unlocks, .memoryBudget, .forwarding]
  field
    | .options => ⟨"kdf", Kdf.Options, Kdf.Options.decoder, some standard.options⟩
    | .unlocks => ⟨"max_concurrent_unlocks", UInt64, countDecoder, some standard.unlocks⟩
    | .memoryBudget =>
      ⟨"kdf_memory_budget_kib", UInt32, Kdf.Options.wordDecoder, some standard.memoryBudget⟩
    | .forwarding =>
      ⟨"forwarding_keys", List PublicKey, .list PublicKey.decoder, some standard.forwarding⟩

def decoder : Json.Decoder Config := fun reading => do
  let v ← layout.read reading
  return ⟨v .options, v .unlocks, v .memoryBudget, v .forwarding⟩

def toJson (config : Config) : Json.Value :=
  .object [
    ("kdf", config.options.toJson),
    ("max_concurrent_unlocks", .number config.unlocks.toNat),
    ("kdf_memory_budget_kib", .number config.memoryBudget.toNat),
    ("forwarding_keys", .array (config.forwarding.map PublicKey.toJson))]

/-- The configuration of a text. Its settings must be valid. -/
def decode (text : Bytes) : Except EnclaveError Config := do
  let config ← (Json.decode decoder text).mapError fun fault => .setup (.malformed fault)
  config.validate
  return config

end Config

end Envelope
