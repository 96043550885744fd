import Envelope.Error
import Envelope.Json.Layout
import Envelope.Kdf.Argon2

/-!
# Options of a key derivation

The options travel with every key record, so that a record is always opened
with the options it was sealed with. They are words of 32 bits; all products
are compared as whole numbers.
-/

namespace Envelope.Kdf

/-- How a key is derived from a password. -/
@[ext] structure Options where
  variant : Argon2.Variant
  /-- Memory in KiB. -/
  memory : UInt32
  iterations : UInt32
  parallelism : UInt32
  version : UInt32
deriving DecidableEq

namespace Options

/-- The version of options that do not name one. -/
def currentVersion : UInt32 := 19

/-- The options that are used where none are given: 1 GiB, ten passes. -/
def standard : Options where
  variant := .hybrid
  memory := 1048576
  iterations := 10
  parallelism := 4
  version := currentVersion

/-- What is wrong with the cost, in the order in which it is looked at. -/
def costFault? (options : Options) : Option CostFault :=
  if options.memory < 8 ∨ options.memory.toNat < 8 * options.parallelism.toNat then some .memory
  else if options.iterations = 0 then some .iterations
  else if options.parallelism = 0 then some .noLanes
  else if 16777215 < options.parallelism then some .manyLanes
  else none

/-- What is wrong with the options: the version is looked at first. -/
def fault? (options : Options) : Option ConfigurationFault :=
  if options.version ≠ 16 ∧ options.version ≠ 19 then some (.version options.version)
  else options.costFault?.map .cost

def validate (options : Options) : Except Error Unit :=
  match options.fault? with
  | some fault => .error (.configuration fault)
  | none => .ok ()

theorem fault?_eq_none_iff {options : Options} :
    options.fault? = none ↔ options.validate = .ok () := by
  unfold validate
  cases options.fault? <;> simp

def cost (options : Options) : Argon2.Cost where
  variant := options.variant
  memory := options.memory.toNat
  passes := options.iterations.toNat
  lanes := options.parallelism.toNat
  version := options.version.toNat

/-! ## Format -/

def variantNames : List (String × Argon2.Variant) :=
  [("i", .independent), ("d", .dependent), ("id", .hybrid)]

def variantName : Argon2.Variant → String
  | .independent => "i"
  | .dependent => "d"
  | .hybrid => "id"

def variantDecoder : Json.Decoder Argon2.Variant := .choice variantNames

def wordDecoder : Json.Decoder UInt32 :=
  fun reading => (Json.Decoder.unsigned UInt32.size "u32" reading).map UInt32.ofNat

inductive Field
  | variant
  | memory
  | iterations
  | parallelism
  | version
deriving DecidableEq, Repr

/-- How the fields of options are read. Without a version they are of the current one. -/
def layout : Json.Layout Field where
  title := "KdfOptions"
  order := [.variant, .memory, .iterations, .parallelism, .version]
  field
    | .variant => ⟨"variant", Argon2.Variant, variantDecoder, none⟩
    | .memory => ⟨"memory", UInt32, wordDecoder, none⟩
    | .iterations => ⟨"iterations", UInt32, wordDecoder, none⟩
    | .parallelism => ⟨"parallelism", UInt32, wordDecoder, none⟩
    | .version => ⟨"version", UInt32, wordDecoder, some currentVersion⟩

def decoder : Json.Decoder Options := fun reading => do
  let v ← layout.read reading
  return ⟨v .variant, v .memory, v .iterations, v .parallelism, v .version⟩

def toJson (options : Options) : Json.Value :=
  .object [
    ("variant", .text (variantName options.variant)),
    ("memory", .number options.memory.toNat),
    ("iterations", .number options.iterations.toNat),
    ("parallelism", .number options.parallelism.toNat),
    ("version", .number options.version.toNat)]

end Options

end Envelope.Kdf
