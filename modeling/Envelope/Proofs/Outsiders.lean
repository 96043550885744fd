import Envelope.Proofs.Circle
import Envelope.Proofs.Extension

/-!
# Recipients without a secret

The point with coordinate zero comes to itself or to infinity under every
scalar, and both are written as zero. So whoever seals a box for it does so
under a key that everybody knows. Of the four ways to write this point only
the one of all zero bytes is refused as a recipient.
-/

namespace Envelope

namespace Cipher.Curve25519

/-- Infinity, or the point with coordinate zero as the ladder starts from it. -/
def IsNull (x z : Nat) : Prop :=
  z = 0 ∨ (x = 0 ∧ z = 1)

variable {r : Rungs}

/-- Both points of the ladder are null. -/
structure Rungs.Null (r : Rungs) : Prop where
  first : IsNull r.x₂ r.z₂
  second : IsNull r.x₃ r.z₃

theorem Rungs.Null.swap (h : r.Null) : r.swap.Null :=
  ⟨h.second, h.first⟩

/-- Doubling a null point gives infinity. -/
theorem Rungs.step_z₂ (h : IsNull r.x₂ r.z₂) (u : Nat) : (r.step u).z₂ = 0 := by
  have hsquares : (r.x₂ + (prime - r.z₂)) * (r.x₂ + (prime - r.z₂)) % prime =
      (r.x₂ + r.z₂) * (r.x₂ + r.z₂) % prime := by
    rcases h with hz | ⟨hx, hz⟩
    · rw [hz, Nat.sub_zero, Nat.add_zero, Nat.mul_mod, Nat.add_mod_right, ← Nat.mul_mod]
    · rw [hx, hz]
      decide
  have hlt : (r.x₂ + r.z₂) * (r.x₂ + r.z₂) % prime < prime := Nat.mod_lt _ (by decide)
  simp only [step, hsquares, Nat.add_sub_cancel' (Nat.le_of_lt hlt), Nat.mul_mod_right]

theorem Rungs.Null.step (h : r.Null) : (r.step 0).Null where
  first := .inl (step_z₂ h.first 0)
  second := .inl (by simp [Rungs.step])

theorem Rungs.Null.climb (h : r.Null) (scalar bits : Nat) :
    (Curve25519.climb 0 scalar bits r).Null := by
  induction bits generalizing r with
  | zero => exact h
  | succ bits ih =>
    unfold Curve25519.climb
    apply ih
    split
    · exact h.swap.step.swap
    · exact h.step

theorem inverse_zero : inverse 0 = 0 := by
  decide +kernel

/-- Every multiple of the point with coordinate zero is written as zero. -/
theorem multiply_zero (scalar : Nat) : multiply scalar 0 = 0 := by
  have hstart : Rungs.Null ⟨1, 0, 0, 1⟩ := ⟨.inl rfl, .inr ⟨rfl, rfl⟩⟩
  rcases (hstart.climb scalar 255).first with hz | ⟨hx, -⟩
  · simp [multiply, hz, inverse_zero]
  · simp [multiply, hx]

/-- With the holder of this point everyone shares the same. -/
theorem sharedPoint_of_coordinate {point : Octets 32} (h : coordinate point = 0)
    (secret : Octets 32) : sharedPoint point secret = encode 0 := by
  rw [sharedPoint, h, multiply_zero]

end Cipher.Curve25519

namespace Payload

open Cipher.Curve25519

variable {recipient : PublicKey}

theorem sharedKey_of_coordinate (h : coordinate recipient.octets = 0) (own : PrivateKey) :
    Suite.standard.sharedKey recipient own =
      Cipher.Salsa20.subkey (Cipher.Curve25519.encode 0).toBytes (List.replicate 16 0) := by
  show Cipher.Salsa20.subkey (sharedPoint recipient.octets own.octets).toBytes _ = _
  rw [sharedPoint_of_coordinate h]

/-- Unless it is the zero key, a way to write the point with coordinate zero is
accepted as a recipient. The key that protects its boxes takes no secret to
compute, so any private key opens whatever box is sealed for it. -/
theorem opens_for_outsiders (hpoint : coordinate recipient.octets = 0)
    (hne : recipient ≠ .zero) :
    checkRecipients [recipient] = .ok () ∧
    (∀ own, Suite.standard.sharedKey recipient own =
      Cipher.Salsa20.subkey (Cipher.Curve25519.encode 0).toBytes (List.replicate 16 0)) ∧
    ∀ (key : SymmetricKey) (sealer outsider : PrivateKey) (stream : Bytes),
      24 ≤ stream.length →
        ∃ box, (sealKey .standard key sealer recipient stream).result = .ok box ∧
          openKey? .standard outsider recipient box.nonce box.sealedKey = some key := by
  refine ⟨checkRecipients_eq_ok_iff.2 ⟨by simp, by simpa using hne.symm⟩,
    sharedKey_of_coordinate hpoint, ?_⟩
  intro key sealer outsider stream hstream
  obtain ⟨box, hbox⟩ := gives_sealKey .standard key sealer recipient hstream
  refine ⟨box, hbox.result_eq, ?_⟩
  apply (sealKey_holds hbox.result_eq).openKey?_of_sharedKey_eq Suite.opensBoxes_standard
  rw [sharedKey_of_coordinate hpoint, sharedKey_of_coordinate hpoint]

/-- The point with coordinate zero, with the bit set that is ignored. -/
def veiledZero : PublicKey :=
  ⟨⟨List.replicate 31 0 ++ [0x80], rfl⟩⟩

/-- The second party opens a box that the first one sealed for the veiled zero
point, and both have public keys of their own. -/
theorem opens_for_outsiders_veiled :
    coordinate veiledZero.octets = 0 ∧ veiledZero ≠ .zero ∧
      checkRecipients [veiledZero] = .ok () ∧
      Suite.standard.publicKey (party 1) ≠ Suite.standard.publicKey (party 2) ∧
      Suite.standard.publicKey (party 1) ≠ veiledZero ∧
      Suite.standard.publicKey (party 2) ≠ veiledZero ∧
      ∃ box, (sealKey .standard ⟨.zero⟩ (party 1) veiledZero (List.replicate 24 7)).result =
          .ok box ∧
        openKey? .standard (party 2) veiledZero box.nonce box.sealedKey = some ⟨.zero⟩ := by
  have hpoint : coordinate veiledZero.octets = 0 := by decide +kernel
  have hne : veiledZero ≠ .zero := by decide
  obtain ⟨hcheck, -, hopen⟩ := opens_for_outsiders hpoint hne
  have hkeys : Suite.standard.publicKey (party 1) ≠ Suite.standard.publicKey (party 2) ∧
      Suite.standard.publicKey (party 1) ≠ veiledZero ∧
      Suite.standard.publicKey (party 2) ≠ veiledZero := by decide +kernel
  exact ⟨hpoint, hne, hcheck, hkeys.1, hkeys.2.1, hkeys.2.2, hopen _ _ _ _ (by simp)⟩

end Payload

end Envelope
