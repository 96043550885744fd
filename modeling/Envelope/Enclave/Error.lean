import Envelope.Error

/-!
# Errors of an enclave

An enclave passes on the errors of the operations below it and adds its own.
-/

namespace Envelope

/-- Why an enclave, its configuration or its keys are refused. -/
inductive SetupFault
  | noUnlocks
  | manyUnlocks
  /-- The memory budget is beyond what a pool can count. -/
  | wideBudget (budget : UInt32)
  /-- The default options are no good. -/
  | options (error : Error)
  | defaultMemory (memory budget : UInt32)
  | zeroForwarding
  | malformed (fault : Json.Fault)
  | noPair
  | repeatedPair (key : PublicKey)
deriving DecidableEq

/-- The number of permits that a pool can count. -/
def maxPermits : UInt64 := 2305843009213693951

def SetupFault.message : SetupFault → String
  | .noUnlocks => "max_concurrent_unlocks must be at least 1"
  | .manyUnlocks => "max_concurrent_unlocks must not exceed " ++ toString maxPermits.toNat
  | .wideBudget budget =>
    "kdf_memory_budget_kib " ++ toString budget.toNat ++ " exceeds the "
      ++ toString maxPermits.toNat ++ " permits this platform can track"
  | .options error => error.message
  | .defaultMemory memory budget =>
    "default kdf memory " ++ toString memory.toNat ++ " KiB exceeds the "
      ++ toString budget.toNat ++ " KiB budget"
  | .zeroForwarding => "forwarding key must not be all zeros"
  | .malformed fault => "malformed enclave config: " ++ fault.message
  | .noPair => "at least one key pair is required"
  | .repeatedPair key => "key pair " ++ key.toBase64 ++ " configured twice"

/-- Why an operation of an enclave failed. -/
inductive EnclaveError
  | crypto (error : Error)
  | keyNotFound (key : PublicKey)
  | stopped
  | setup (fault : SetupFault)
  /-- Loading ended with neither a failure nor all keys. -/
  | incomplete
deriving DecidableEq

namespace EnclaveError

inductive Kind
  | crypto
  | keyNotFound
  | stopped
  | setup
  | worker
deriving DecidableEq, Repr

/-- The wording of an error of a kind. -/
def Kind.sentence (kind : Kind) (detail : String) : String :=
  match kind with
  | .crypto => "crypto error: " ++ detail
  | .keyNotFound => "no private key held for public key " ++ detail
  | .stopped => "enclave is stopped"
  | .setup => "invalid configuration: " ++ detail
  | .worker => "unlock worker failed: " ++ detail

def kind : EnclaveError → Kind
  | .crypto _ => .crypto
  | .keyNotFound _ => .keyNotFound
  | .stopped => .stopped
  | .setup _ => .setup
  | .incomplete => .worker

/-- What the wording of an error adds to that of its kind. -/
def detail : EnclaveError → String
  | .crypto error => error.message
  | .keyNotFound key => key.toBase64
  | .stopped => ""
  | .setup fault => fault.message
  | .incomplete => "unlock finished without a key"

def message (error : EnclaveError) : String :=
  error.kind.sentence error.detail

end EnclaveError

end Envelope
