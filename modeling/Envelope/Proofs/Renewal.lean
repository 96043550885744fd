import Envelope.Proofs.Custody
import Envelope.Proofs.Discretion

/-!
# Changing a password

To open a record takes the lock state, the memory limit and valid options, in
this order; to seal takes valid options before anything is drawn, and the limit
only after the salt. Whatever opened has passed all of it, so a key that came out
of a record is sealed again under the options of that record unless the random
bytes run out.
-/

namespace Envelope.Protector

variable {suite : Suite} {protector : Protector} {record : KeyRecord} {key : PrivateKey}
  {options : Kdf.Options} {password old : String} {stream : Bytes}

/-- A record opens exactly if it holds the key and a protector may derive a key
with its options. -/
theorem unlock_eq_ok_iff :
    protector.unlock suite record password = .ok key ↔
      Custody.Holds suite key record.options ⟨record, password⟩ ∧
        record.options.validate = .ok () ∧ record.options.memory ≤ protector.maxMemory := by
  constructor
  · intro h
    cases hderives : protector.derives record with
    | false =>
      rw [unlock_eq_of_not_derives suite hderives] at h
      cases h
    | true =>
      obtain ⟨hstate, hmemory, hvalid⟩ := derives_iff.1 hderives
      rw [unlock_of_derive hstate (derive_eq_ok suite hvalid hmemory password record.salt)] at h
      cases hopen : suite.openBody (suite.stretch record.options password record.salt)
          record.nonce record.sealedKey >>= Octets.ofBytes? with
      | none =>
        rw [hopen] at h
        cases h
      | some octets =>
        rw [hopen] at h
        cases h
        obtain ⟨message, hmessage, hoctets⟩ := Option.bind_eq_some_iff.1 hopen
        obtain rfl := Octets.ofBytes?_eq_some_iff.1 hoctets
        exact ⟨⟨hstate, rfl, hmessage⟩, hvalid, hmemory⟩
  · rintro ⟨hholds, hvalid, hmemory⟩
    exact hholds.unlock hvalid hmemory

/-- Where the bytes do not do for a salt and a nonce, those of the salt are gone if
there were enough for it. -/
theorem starves_protectWith (suite : Suite) (key : PrivateKey) (password : String)
    (hvalid : options.validate = .ok ()) (hmemory : options.memory ≤ protector.maxMemory)
    (hstream : stream.length < 40) :
    (protectWith suite protector key password options).Starves stream
      (if stream.length < 16 then 0 else 16) := by
  rw [protectWith_eq suite key password hvalid hmemory]
  by_cases hsalt : stream.length < 16
  · rw [if_pos hsalt]
    exact (Sampler.starves_salt hsalt).bind _
  · rw [if_neg hsalt]
    have hrest : (stream.drop 16).length < 24 := by
      rw [List.length_drop]
      omega
    refine (Sampler.gives_salt (Nat.le_of_not_lt hsalt)).starves
      (?_ : Sampler.Starves _ (stream.drop 16) 0)
    exact (Sampler.starves_nonce hrest).bind _

theorem starves_changePassword (h : protector.unlock suite record old = .ok key)
    (hvalid : record.options.validate = .ok ())
    (hmemory : record.options.memory ≤ protector.maxMemory) (hstream : stream.length < 40)
    (new : String) :
    (protector.changePassword suite record old new).Starves stream
      (if stream.length < 16 then 0 else 16) := by
  rw [changePassword_of_unlock h]
  exact (starves_protectWith suite key new hvalid hmemory hstream).bind _

theorem changePassword_of_error {error : Error}
    (h : protector.unlock suite record old = .error error) (new : String) (stream : Bytes) :
    protector.changePassword suite record old new stream = ⟨.error error, stream, []⟩ := by
  rw [changePassword, h]
  rfl

/-- A password is changed if the old one opens the record and there are bytes for
a salt and a nonce. An attempt that does not open the record fails as opening does
and takes nothing; after that nothing but the random bytes can be lacking. -/
theorem changePassword_outcome (hbodies : suite.OpensBodies) (protector : Protector)
    (record : KeyRecord) (old new : String) (stream : Bytes) :
    let outcome := protector.changePassword suite record old new stream
    (∀ error, protector.unlock suite record old = .error error →
      outcome = ⟨.error error, stream, []⟩) ∧
    ∀ key, protector.unlock suite record old = .ok key →
      ((∃ renewed, outcome.result = .ok renewed) ↔ 40 ≤ stream.length) ∧
      (∀ renewed, outcome.result = .ok renewed →
        outcome.left = stream.drop 40 ∧
        renewed.salt.octets.toBytes = stream.take 16 ∧
        renewed.nonce.octets.toBytes = (stream.drop 16).take 24 ∧
        renewed.options = record.options ∧ renewed.label = record.label ∧
        renewed.state = .locked ∧ protector.unlock suite renewed new = .ok key ∧
        ∀ opener : Protector, record.options.memory ≤ opener.maxMemory →
          opener.unlock suite renewed new = .ok key) ∧
      (stream.length < 40 →
        outcome.result = .error (.resource .randomness) ∧
        outcome.left = if stream.length < 16 then stream else stream.drop 16) := by
  intro outcome
  refine ⟨fun error h => changePassword_of_error h new stream, fun key hunlock => ?_⟩
  -- What opening has granted is all that sealing asks of the options.
  obtain ⟨-, hvalid, hmemory⟩ := unlock_eq_ok_iff.1 hunlock
  by_cases hstream : 40 ≤ stream.length
  · obtain ⟨salt, nonce, hsalt, hnonce, hgives⟩ :=
      gives_changePassword hunlock hvalid hmemory hstream new
    have hholds := (Custody.holds_sealedRecord hbodies key new record.options salt nonce).label
      record.label
    have hresult : outcome.result = .ok _ := hgives.result_eq
    have hleft : outcome.left = stream.drop 40 := hgives.left_eq
    rw [hresult, hleft]
    refine ⟨⟨fun _ => hstream, fun _ => ⟨_, rfl⟩⟩, ?_, fun h => absurd hstream (Nat.not_le.2 h)⟩
    rintro renewed ⟨⟩
    exact ⟨rfl, hsalt, hnonce, rfl, rfl, rfl, hholds.unlock hvalid hmemory,
      fun opener => hholds.unlock hvalid⟩
  · have hstarves :=
      starves_changePassword hunlock hvalid hmemory (Nat.lt_of_not_le hstream) new
    have hresult : outcome.result = .error (.resource .randomness) := hstarves.result_eq
    have hleft : outcome.left = stream.drop (if stream.length < 16 then 0 else 16) :=
      hstarves.left_eq
    rw [hresult, hleft]
    refine ⟨⟨nofun, fun h => absurd h hstream⟩, nofun, fun _ => ⟨rfl, ?_⟩⟩
    split <;> rfl

/-- The protector has options of its own that would be refused. With one byte more
than it takes, with one byte less, and with a record that does not claim to be
locked. -/
theorem changePassword_outcome_tight :
    let protector : Protector := ⟨64, ⟨.hybrid, 0, 0, 0, 1⟩⟩
    let record := sealedRecord .standard ⟨.zero⟩ "old" ⟨.dependent, 64, 1, 2, 16⟩ ⟨.zero⟩ ⟨.zero⟩
    Suite.standard.OpensBodies ∧ protector.unlock .standard record "old" = .ok ⟨.zero⟩ ∧
      (∃ renewed,
        (protector.changePassword .standard record "old" "new" (List.replicate 41 7)).result =
          .ok renewed ∧
        (protector.changePassword .standard record "old" "new" (List.replicate 41 7)).left = [7] ∧
        protector.unlock .standard renewed "new" = .ok ⟨.zero⟩) ∧
      (protector.changePassword .standard record "old" "new" (List.replicate 39 7)).result =
        .error (.resource .randomness) ∧
      (protector.changePassword .standard record "old" "new" (List.replicate 39 7)).left =
        List.replicate 23 7 ∧
      protector.changePassword .standard { record with state := .unlocked } "old" "new"
          (List.replicate 41 7) =
        ⟨.error .notLocked, List.replicate 41 7, []⟩ := by
  intro protector record
  have hbodies := Suite.opensBodies_standard
  have hunlock : protector.unlock .standard record "old" = .ok ⟨.zero⟩ :=
    (Custody.holds_sealedRecord hbodies ⟨.zero⟩ "old" _ ⟨.zero⟩ ⟨.zero⟩).unlock rfl (by decide)
  have houtcome := fun stream => (changePassword_outcome hbodies protector record "old" "new"
    stream).2 ⟨.zero⟩ hunlock
  obtain ⟨hiff, hrenewed, -⟩ := houtcome (List.replicate 41 7)
  obtain ⟨-, -, hstarved⟩ := houtcome (List.replicate 39 7)
  obtain ⟨renewed, hresult⟩ := hiff.2 (by decide)
  obtain ⟨hleft, -, -, -, -, -, hopen, -⟩ := hrenewed renewed hresult
  obtain ⟨hstarves, hrest⟩ := hstarved (by decide)
  refine ⟨hbodies, hunlock, ⟨renewed, hresult, hleft, hopen⟩, hstarves, hrest, ?_⟩
  exact (changePassword_outcome hbodies protector _ "old" "new" _).1 _ rfl

end Envelope.Protector
