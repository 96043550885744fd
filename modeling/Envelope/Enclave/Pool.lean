import Envelope.Enclave.Config
import Envelope.Protector

/-!
# Unlock pools

A key derivation holds one worker permit, and one memory permit for every KiB
of its cost, for as long as it runs. What asks for more memory than the whole
budget is refused at once; what finds too few permits waits.
-/

namespace Envelope

/-- Permits for key derivations, and the protector that runs them. -/
structure Pool where
  protector : Protector
  maxWorkers : Nat
  /-- The memory budget in KiB. -/
  budget : UInt32
  /-- The worker permits that nobody holds. -/
  workers : Nat
  /-- The memory permits that nobody holds. -/
  memory : Nat
  closed : Bool
deriving DecidableEq

namespace Pool

/-- The pool of a valid configuration. One derivation may take the whole memory
budget. -/
def create (config : Config) : Except EnclaveError Pool := do
  config.validate
  return {
    protector := { maxMemory := config.memoryBudget, options := config.options }
    maxWorkers := config.unlocks.toNat
    budget := config.memoryBudget
    workers := config.unlocks.toNat
    memory := config.memoryBudget.toNat
    closed := false }

/-- The pool without further work. Nobody loses permits. -/
def close (pool : Pool) : Pool := { pool with closed := true }

/-- The answer to a request for permits. -/
inductive Grant
  | refused (error : EnclaveError)
  | waits
  /-- The pool without the permits. -/
  | granted (pool : Pool)

/-- Why the permits for the given options are refused, free or not. -/
def refusal? (pool : Pool) (options : Kdf.Options) : Option EnclaveError :=
  if pool.budget < options.memory then
    some (.crypto (.resource (.unlocking options.memory pool.budget)))
  else if pool.closed then some (.crypto (.resource .poolClosed))
  else none

/-- Asks for the worker permit of a derivation with the given options. -/
def engage (pool : Pool) (options : Kdf.Options) : Grant :=
  match pool.refusal? options with
  | some error => .refused error
  | none =>
    if pool.workers = 0 then .waits
    else .granted { pool with workers := pool.workers - 1 }

/-- Takes a worker permit back. -/
def dismiss (pool : Pool) : Pool := { pool with workers := pool.workers + 1 }

/-- Asks for the memory permits of a derivation that has its worker permit. -/
def allot (pool : Pool) (options : Kdf.Options) : Grant :=
  if pool.closed then .refused (.crypto (.resource .poolClosed))
  else if pool.memory < options.memory.toNat then .waits
  else .granted { pool with memory := pool.memory - options.memory.toNat }

/-- Asks for all permits of a derivation. -/
def request (pool : Pool) (options : Kdf.Options) : Grant :=
  match pool.engage options with
  | .granted rest => rest.allot options
  | grant => grant

def release (pool : Pool) (options : Kdf.Options) : Pool :=
  { pool.dismiss with memory := pool.memory + options.memory.toNat }

/-- What an operation leaves behind. -/
structure Turn (α : Type) where
  pool : Pool
  outcome : Outcome EnclaveError α

/-- Does some work while it holds the permits for the given options; `none` if
it waits for permits that others hold. -/
def holding {α : Type} (pool : Pool) (options : Kdf.Options) (work : Sampler EnclaveError α)
    (stream : Bytes) : Option (Turn α) :=
  match pool.request options with
  | .refused error => some ⟨pool, Sampler.fail error stream⟩
  | .waits => none
  | .granted rest => some ⟨rest.release options, work stream⟩

variable (suite : Suite)

def unlock (pool : Pool) (record : KeyRecord) (password : String) :
    Bytes → Option (Turn PrivateKey) :=
  pool.holding record.options
    (Sampler.ofExcept ((pool.protector.unlock suite record password).mapError .crypto))

/-- Opens a locked record, unless the operation is cancelled by the time it has
its permits. -/
def unlockUnless (pool : Pool) (cancelled : Bool) (record : KeyRecord) (password : String) :
    Bytes → Option (Turn (Option PrivateKey)) :=
  pool.holding record.options <|
    if cancelled then return none
    else Sampler.ofExcept
      (((pool.protector.unlock suite record password).map some).mapError .crypto)

def protect (pool : Pool) (key : PrivateKey) (password : String) :
    Bytes → Option (Turn KeyRecord) :=
  pool.holding pool.protector.options
    ((pool.protector.protect suite key password).mapError .crypto)

def generate (pool : Pool) (password : String) : Bytes → Option (Turn (KeyPair × KeyRecord)) :=
  pool.holding pool.protector.options ((pool.protector.generate suite password).mapError .crypto)

end Pool

end Envelope
