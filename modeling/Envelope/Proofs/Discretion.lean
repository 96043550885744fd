import Envelope.Proofs.Custody
import Envelope.Proofs.Routes

/-!
# What a failure tells

Opening a record can be refused before the password comes in, by the lock state
and the options alone. Every later failure is one and the same, whether it was
the password, the salt, the nonce or what was sealed. So attempts on records
with one lock state and the same options cannot be told apart by how they fail.
Reading a payload can only fail in that one way.
-/

namespace Envelope

namespace Protector

theorem kind_failure (protector : Protector) (state : LockState) (options : Kdf.Options) :
    (protector.failure state options).kind =
      if state ≠ .locked then .unsupported
      else if protector.maxMemory < options.memory then .resource
      else if options.validate ≠ .ok () then .configuration
      else .decryption := by
  unfold failure Kdf.Options.validate
  split
  · rfl
  · split
    · rfl
    · cases options.fault? with
      | some fault => rfl
      | none => rfl

variable {suite : Suite} {protector : Protector} {record : KeyRecord} {password : String}

/-- Once a key is derived, what the sealed bytes are and whether they are a key
is answered alike. -/
theorem unlock_of_derive {derived : SymmetricKey} (hstate : record.state = .locked)
    (hderive : derive suite protector.maxMemory record.options password record.salt = .ok derived) :
    protector.unlock suite record password =
      (suite.openBody derived record.nonce record.sealedKey >>= Octets.ofBytes?).elim
        (.error .decryption) fun octets => .ok ⟨octets⟩ := by
  have hlocked : ¬record.state ≠ .locked := not_not_intro hstate
  rw [unlock, if_neg hlocked, hderive]
  simp only [bind, Except.bind, pure, Except.pure]
  cases (suite.openBody derived record.nonce record.sealedKey).bind Octets.ofBytes? with
  | some octets => rfl
  | none => rfl

/-- What an attempt can come to. It may succeed only where nothing but the
password or what was sealed is left to blame. -/
theorem unlock_cases (suite : Suite) (protector : Protector) (record : KeyRecord)
    (password : String) :
    protector.unlock suite record password =
        .error (protector.failure record.state record.options) ∨
      (protector.failure record.state record.options = .decryption ∧
        ∃ key, protector.unlock suite record password = .ok key) := by
  cases hderives : protector.derives record with
  | false => exact .inl (unlock_eq_of_not_derives suite hderives password)
  | true =>
    obtain ⟨hstate, hmemory, hvalid⟩ := derives_iff.1 hderives
    have hderive := derive_eq_ok suite hvalid hmemory password record.salt
    rw [failure_of_derives hderives, unlock_of_derive hstate hderive]
    cases suite.openBody _ record.nonce record.sealedKey >>= Octets.ofBytes? with
    | some octets => exact .inr ⟨rfl, ⟨octets⟩, rfl⟩
    | none => exact .inl rfl

/-- An attempt that fails does so with the failure of the lock state and the
options. -/
theorem eq_failure_of_unlock {error : Error}
    (h : protector.unlock suite record password = .error error) :
    error = protector.failure record.state record.options := by
  rcases unlock_cases suite protector record password with hfailure | ⟨-, key, hkey⟩
  · exact Except.error.inj (h.symm.trans hfailure)
  · rw [hkey] at h
    cases h

/-- An attempt fails for sure unless the failure is that of a wrong password. -/
theorem unlock_eq_failure (suite : Suite) (password : String)
    (h : (protector.failure record.state record.options).kind ≠ .decryption) :
    protector.unlock suite record password =
      .error (protector.failure record.state record.options) := by
  apply (unlock_cases suite protector record password).resolve_right
  rintro ⟨hfailure, -⟩
  exact h (congrArg Error.kind hfailure)

end Protector

namespace Payload

variable {suite : Suite} {payload : Payload} {own : PrivateKey} {error : Error}

theorem eq_decryption_of_recoverKey (h : recoverKey suite payload own = .error error) :
    error = .decryption := by
  unfold recoverKey at h
  split at h
  · split at h
    · cases h
    · exact (Except.error.inj h).symm
  · exact (Except.error.inj h).symm

theorem eq_decryption_of_decrypt (h : decrypt suite payload own = .error error) :
    error = .decryption := by
  cases hkey : recoverKey suite payload own with
  | error fault =>
    simp only [decrypt, hkey, bind, Except.bind, Except.error.injEq] at h
    exact h ▸ eq_decryption_of_recoverKey hkey
  | ok key =>
    rw [decrypt_of_recoverKey hkey] at h
    unfold openBody at h
    split at h
    · cases h
    · exact (Except.error.inj h).symm

end Payload

/-- Two attempts to open records with one lock state and the same options fail
alike if they fail, whatever else the records hold and whatever the passwords
are, and both fail unless the failure is that of a wrong password. To read a
payload fails in that one way. -/
theorem Protector.unlock_discreet (suite : Suite) (protector : Protector)
    {first second : KeyRecord} (hstate : first.state = second.state)
    (hoptions : first.options = second.options) (password password' : String) :
    (∃ failure : Error,
      failure.kind =
        (if first.state ≠ .locked then .unsupported
        else if protector.maxMemory < first.options.memory then .resource
        else if first.options.validate ≠ .ok () then .configuration
        else .decryption) ∧
      (∀ error, protector.unlock suite first password = .error error → error = failure) ∧
      (∀ error, protector.unlock suite second password' = .error error → error = failure) ∧
      (failure.kind ≠ .decryption →
        protector.unlock suite first password = .error failure ∧
          protector.unlock suite second password' = .error failure)) ∧
    ∀ (payload : Payload) (own : PrivateKey) (error : Error),
      payload.decrypt suite own = .error error → error = .decryption := by
  constructor
  · refine ⟨protector.failure first.state first.options, kind_failure _ _ _, ?_, ?_, ?_⟩
    · exact fun error herror => eq_failure_of_unlock herror
    · rw [hstate, hoptions]
      exact fun error herror => eq_failure_of_unlock herror
    · intro hkind
      have hfirst := unlock_eq_failure suite password hkind
      rw [hstate, hoptions] at hkind ⊢
      exact ⟨hstate ▸ hoptions ▸ hfirst, unlock_eq_failure suite password' hkind⟩
  · exact fun payload own error => Payload.eq_decryption_of_decrypt

/-- The ceiling is below the options, so nobody learns which of the two
passwords, labels or boxes was the right one. -/
theorem Protector.unlock_discreet_costly :
    let protector : Protector := ⟨64, .standard⟩
    let first : KeyRecord :=
      ⟨some "first", .locked, ⟨.hybrid, 65, 1, 1, 19⟩, ⟨.zero⟩, ⟨.zero⟩, [1, 2, 3]⟩
    let second : KeyRecord := { first with label := none, sealedKey := [] }
    first.state = second.state ∧ first.options = second.options ∧
      ∃ failure : Error, failure.kind = .resource ∧
        protector.unlock .standard first "first" = .error failure ∧
        protector.unlock .standard second "" = .error failure := by
  intro protector first second
  have hstate : first.state = second.state := rfl
  have hoptions : first.options = second.options := rfl
  obtain ⟨⟨failure, hkind, -, -, hfail⟩, -⟩ :=
    unlock_discreet .standard protector hstate hoptions "first" ""
  have hresource : failure.kind = .resource := hkind.trans (by decide)
  exact ⟨hstate, hoptions, failure, hresource, hfail (by rw [hresource]; decide)⟩

end Envelope
