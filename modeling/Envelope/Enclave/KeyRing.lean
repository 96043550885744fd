import Envelope.Enclave.Error
import Envelope.KeyMap

/-!
# Key rings

The key pairs that an enclave holds, found by their public keys, and the keys
that it forwards to.
-/

namespace Envelope

/-- At least one key pair, no public key twice, and the forwarding keys. -/
structure KeyRing where
  pairs : List KeyPair
  forwarding : KeySet
  pairs_ne_nil : pairs ≠ []
  nodup : (pairs.map (·.publicKey)).Nodup

namespace KeyRing

/-- The first key that repeats an earlier one or one of those seen before. -/
def firstRepeated? (seen : List PublicKey) : List PublicKey → Option PublicKey
  | [] => none
  | key :: rest => if key ∈ seen then some key else firstRepeated? (key :: seen) rest

theorem nodup_of_firstRepeated?_eq_none {seen keys : List PublicKey}
    (h : firstRepeated? seen keys = none) : keys.Nodup ∧ ∀ key ∈ keys, key ∉ seen := by
  induction keys generalizing seen with
  | nil => simp
  | cons key rest ih =>
    unfold firstRepeated? at h
    split at h
    · simp at h
    · rename_i hseen
      obtain ⟨hrest, hnot⟩ := ih h
      refine ⟨List.nodup_cons.2 ⟨fun hmem => hnot key hmem (by simp), hrest⟩, fun k hk => ?_⟩
      rcases List.mem_cons.1 hk with rfl | hk
      · exact hseen
      · exact fun hs => hnot k hk (by simp [hs])

def create (pairs : List KeyPair) (forwarding : List PublicKey) : Except EnclaveError KeyRing :=
  if hne : pairs = [] then .error (.setup .noPair)
  else
    match h : firstRepeated? [] (pairs.map (·.publicKey)) with
    | some key => .error (.setup (.repeatedPair key))
    | none => .ok ⟨pairs, .ofKeys forwarding, hne, (nodup_of_firstRepeated?_eq_none h).1⟩

/-- The public key of the first pair. -/
def default (ring : KeyRing) : PublicKey :=
  (ring.pairs.head ring.pairs_ne_nil).publicKey

def publicKeys (ring : KeyRing) : KeySet :=
  .ofKeys (ring.pairs.map (·.publicKey))

/-- Whether the private key of a public key is held. -/
def contains (ring : KeyRing) (key : PublicKey) : Bool :=
  ring.pairs.any (·.publicKey = key)

def privateKey (ring : KeyRing) (key : PublicKey) : Except EnclaveError PrivateKey :=
  match ring.pairs.find? (·.publicKey = key) with
  | some pair => .ok pair.privateKey
  | none => .error (.keyNotFound key)

end KeyRing

end Envelope
