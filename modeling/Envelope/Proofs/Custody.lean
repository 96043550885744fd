import Envelope.Lists
import Envelope.Proofs.Records
import Envelope.Proofs.Sampling
import Envelope.Protector

/-!
# Keys in custody

A private key is sealed under a password. From then on its record is handled:
the password changes, labels are put on, the record is stored and read again,
each time perhaps with another protector. The invariant is that the record opens
under the password that was set last, with the options that it started with.
Options that a protector has for new records never come into it.
-/

namespace Envelope

/-- What is done to a record without looking at the key in it. -/
inductive Handling
  | changePassword (protector : Protector) (new : String)
  | relabel (label : String)
  /-- The record is stored, and read from there. -/
  | store

/-- A record, and the password that it is expected to open under. -/
structure Custody where
  record : KeyRecord
  password : String

namespace Handling

/-- The password afterwards. -/
def password (before : String) : Handling → String
  | changePassword _ new => new
  | _ => before

/-- The label afterwards. -/
def label (before : Option String) : Handling → Option String
  | relabel label => some label
  | _ => before

/-- How many random bytes it takes: a salt and a nonce for every sealing. -/
def taken : Handling → Nat
  | changePassword _ _ => 40
  | _ => 0

/-- How many random bytes are taken one after another. -/
def takenBy : List Handling → Nat
  | [] => 0
  | handling :: handlings => handling.taken + takenBy handlings

/-- Where a key is derived, the protector may take the memory that the options ask for. -/
def Affords (options : Kdf.Options) : Handling → Prop
  | changePassword protector _ => options.memory ≤ protector.maxMemory
  | _ => True

def apply (suite : Suite) (custody : Custody) : Handling → Sampler Error Custody
  | changePassword protector new => do
    let record ← protector.changePassword suite custody.record custody.password new
    return ⟨record, new⟩
  | relabel label => return { custody with record := custody.record.withLabel label }
  | store => do
    let record ← KeyRecord.decode custody.record.encode
    return { custody with record }

end Handling

/-- Seals a key, and handles its record from then on. -/
def Protector.takeInto (suite : Suite) (protector : Protector) (key : PrivateKey)
    (password : String) (options : Kdf.Options) (handlings : List Handling) :
    Sampler Error Custody := do
  let record ← protector.protectWith suite key password options
  handlings.foldlM (Handling.apply suite) ⟨record, password⟩

namespace Protector

variable {suite : Suite} {protector : Protector} {key : PrivateKey} {options : Kdf.Options}
  {password : String} {stream : Bytes}

/-! ## Sealing -/

theorem derive_eq_ok (suite : Suite) (hvalid : options.validate = .ok ()) {limit : UInt32}
    (hmemory : options.memory ≤ limit) (password : String) (salt : Salt) :
    derive suite limit options password salt = .ok (suite.stretch options password salt) := by
  have hlimit : ¬limit < options.memory := UInt32.not_lt.2 hmemory
  simp [derive, hlimit, hvalid, bind, Except.bind, pure, Except.pure]

/-- A key is derived exactly under valid options within the limit. -/
theorem derive_eq_ok_iff {limit : UInt32} {salt : Salt} {derived : SymmetricKey} :
    derive suite limit options password salt = .ok derived ↔
      options.validate = .ok () ∧ options.memory ≤ limit ∧
        derived = suite.stretch options password salt := by
  by_cases hmemory : options.memory ≤ limit
  · cases hvalid : options.validate with
    | ok =>
      rw [derive_eq_ok suite hvalid hmemory]
      simp [hmemory, eq_comm]
    | error error => simp [derive, hvalid, UInt32.not_lt.2 hmemory, bind, Except.bind]
  · simp [derive, hmemory, UInt32.not_le.1 hmemory, throw, throwThe, MonadExceptOf.throw, bind,
      Except.bind]

/-- The record of a key that is sealed with a salt and a nonce. -/
def sealedRecord (suite : Suite) (key : PrivateKey) (password : String) (options : Kdf.Options)
    (salt : Salt) (nonce : Nonce) : KeyRecord where
  label := none
  state := .locked
  options := options
  nonce := nonce
  salt := salt
  sealedKey := suite.sealBody (suite.stretch options password salt) nonce key.octets.toBytes

theorem protectWith_eq (suite : Suite) (key : PrivateKey) (password : String)
    (hvalid : options.validate = .ok ()) (hmemory : options.memory ≤ protector.maxMemory) :
    protectWith suite protector key password options = do
      let salt ← Sampler.salt
      let nonce ← Sampler.nonce
      let _ ← Sampler.sealBody suite (suite.stretch options password salt) nonce key.octets.toBytes
      return sealedRecord suite key password options salt nonce := by
  simp only [protectWith, hvalid, derive_eq_ok suite hvalid hmemory, Sampler.lift_ok, pure_bind]
  rfl

/-- Sealing takes a salt and then a nonce off the stream. -/
theorem gives_protectWith_drawn (suite : Suite) (key : PrivateKey) (password : String)
    (hvalid : options.validate = .ok ()) (hmemory : options.memory ≤ protector.maxMemory)
    (hstream : 40 ≤ stream.length) :
    ∃ salt nonce, salt.octets.toBytes = stream.take 16 ∧
      nonce.octets.toBytes = (stream.drop 16).take 24 ∧
      (protectWith suite protector key password options).Gives stream 40
        (sealedRecord suite key password options salt nonce) := by
  have hrest : 24 ≤ (stream.drop 16).length := List.le_length_drop hstream
  obtain ⟨salt, hsalt_eq, hsalt⟩ :
      ∃ salt, salt.octets.toBytes = stream.take 16 ∧ Sampler.salt.Gives stream 16 salt :=
    ⟨_, rfl, Sampler.gives_salt (Nat.le_trans (by decide) hstream)⟩
  obtain ⟨nonce, hnonce_eq, hnonce⟩ :
      ∃ nonce, nonce.octets.toBytes = (stream.drop 16).take 24 ∧
        Sampler.nonce.Gives (stream.drop 16) 24 nonce :=
    ⟨_, rfl, Sampler.gives_nonce hrest⟩
  have hseal := Sampler.gives_sealBody (ε := Error) suite (suite.stretch options password salt)
    nonce key.octets.toBytes ((stream.drop 16).drop 24)
  refine ⟨salt, nonce, hsalt_eq, hnonce_eq, ?_⟩
  rw [protectWith_eq suite key password hvalid hmemory]
  refine hsalt.bind (?_ : Sampler.Gives _ (stream.drop 16) 24 _)
  refine hnonce.bind (?_ : Sampler.Gives _ ((stream.drop 16).drop 24) 0 _)
  exact hseal.map fun _ => sealedRecord suite key password options salt nonce

theorem gives_protectWith (suite : Suite) (key : PrivateKey) (password : String)
    (hvalid : options.validate = .ok ()) (hmemory : options.memory ≤ protector.maxMemory)
    (hstream : 40 ≤ stream.length) :
    ∃ salt nonce, (protectWith suite protector key password options).Gives stream 40
      (sealedRecord suite key password options salt nonce) := by
  obtain ⟨salt, nonce, -, -, hgives⟩ :=
    gives_protectWith_drawn suite key password hvalid hmemory hstream
  exact ⟨salt, nonce, hgives⟩

/-! ## Changing the password -/

variable {record : KeyRecord} {old : String}

/-- What was opened is sealed again, under the options and with the label that it had. -/
theorem changePassword_of_unlock (h : protector.unlock suite record old = .ok key) (new : String) :
    protector.changePassword suite record old new = do
      let renewed ← protector.protectWith suite key new record.options
      return { renewed with label := record.label } := by
  rw [changePassword, h]
  rfl

/-- The options come from the record, so nothing is asked of the protector's own ones. -/
theorem gives_changePassword (h : protector.unlock suite record old = .ok key)
    (hvalid : record.options.validate = .ok ())
    (hmemory : record.options.memory ≤ protector.maxMemory) (hstream : 40 ≤ stream.length)
    (new : String) :
    ∃ salt nonce, salt.octets.toBytes = stream.take 16 ∧
      nonce.octets.toBytes = (stream.drop 16).take 24 ∧
      (protector.changePassword suite record old new).Gives stream 40
        { sealedRecord suite key new record.options salt nonce with label := record.label } := by
  obtain ⟨salt, nonce, hsalt, hnonce, hgives⟩ :=
    gives_protectWith_drawn suite key new hvalid hmemory hstream
  refine ⟨salt, nonce, hsalt, hnonce, ?_⟩
  rw [changePassword_of_unlock h]
  exact hgives.map fun renewed => { renewed with label := record.label }

end Protector

/-! ## The record in custody -/

namespace Custody

variable {suite : Suite} {key : PrivateKey} {options : Kdf.Options} {custody : Custody}

/-- The record holds a key under the password, locked and with the options. -/
structure Holds (suite : Suite) (key : PrivateKey) (options : Kdf.Options) (custody : Custody) :
    Prop where
  state_eq : custody.record.state = .locked
  options_eq : custody.record.options = options
  opens : suite.openBody (suite.stretch options custody.password custody.record.salt)
    custody.record.nonce custody.record.sealedKey = some key.octets.toBytes

/-- The label is not sealed with the key. -/
theorem Holds.label (h : custody.Holds suite key options) (label : Option String) :
    Holds suite key options { custody with record := { custody.record with label } } :=
  ⟨h.state_eq, h.options_eq, h.opens⟩

theorem holds_sealedRecord (hbodies : suite.OpensBodies) (key : PrivateKey) (password : String)
    (options : Kdf.Options) (salt : Salt) (nonce : Nonce) :
    Holds suite key options
      ⟨Protector.sealedRecord suite key password options salt nonce, password⟩ :=
  ⟨rfl, rfl, hbodies _ _ _⟩

/-- Any protector with enough memory opens the record. -/
theorem Holds.unlock (h : custody.Holds suite key options) (hvalid : options.validate = .ok ())
    {opener : Protector} (hmemory : options.memory ≤ opener.maxMemory) :
    opener.unlock suite custody.record custody.password = .ok key := by
  have hderive := Protector.derive_eq_ok suite hvalid hmemory custody.password custody.record.salt
  simp [Protector.unlock, h.state_eq, h.options_eq, hderive, h.opens, bind, Except.bind, pure,
    Except.pure]

/-- Every handling succeeds, and the record goes on holding the key. -/
theorem Holds.gives_apply (hbodies : suite.OpensBodies) (hvalid : options.validate = .ok ())
    (h : custody.Holds suite key options) {handling : Handling} (hafford : handling.Affords options)
    {stream : Bytes} (hstream : handling.taken ≤ stream.length) :
    ∃ next, (handling.apply suite custody).Gives stream handling.taken next ∧
      next.Holds suite key options ∧ next.password = handling.password custody.password ∧
      next.record.label = handling.label custody.record.label := by
  cases handling with
  | changePassword protector new =>
    have hunlock := h.unlock hvalid hafford
    obtain rfl := h.options_eq
    obtain ⟨salt, nonce, -, -, hgives⟩ :=
      Protector.gives_changePassword hunlock hvalid hafford hstream new
    exact ⟨_, hgives.map fun record => Custody.mk record new,
      (holds_sealedRecord hbodies key new custody.record.options salt nonce).label _, rfl, rfl⟩
  | relabel label =>
    exact ⟨_, Sampler.gives_pure _ stream, h.label (some label), rfl, rfl⟩
  | store =>
    refine ⟨custody, ?_, h, rfl, rfl⟩
    rw [Handling.apply, KeyRecord.decode_encode, h.options_eq, hvalid]
    exact Sampler.gives_pure _ stream

/-- A record in custody holds its key whatever is done to it. -/
theorem Holds.gives_run (hbodies : suite.OpensBodies) (hvalid : options.validate = .ok ()) :
    ∀ {handlings : List Handling} {custody : Custody} {stream : Bytes},
      custody.Holds suite key options → (∀ handling ∈ handlings, handling.Affords options) →
      Handling.takenBy handlings ≤ stream.length →
      ∃ last, (handlings.foldlM (Handling.apply suite) custody).Gives stream
          (Handling.takenBy handlings) last ∧
        last.Holds suite key options ∧
        last.password = handlings.foldl Handling.password custody.password ∧
        last.record.label = handlings.foldl Handling.label custody.record.label
  | [], custody, stream, h, _, _ => ⟨custody, Sampler.gives_pure custody stream, h, rfl, rfl⟩
  | handling :: handlings, custody, stream, h, hafford, hstream => by
    rw [Handling.takenBy] at hstream ⊢
    obtain ⟨hfirst, hrest⟩ := List.forall_mem_cons.1 hafford
    obtain ⟨next, hgives, hnext, hpassword, hlabel⟩ :=
      h.gives_apply hbodies hvalid hfirst (Nat.le_of_add_right_le hstream)
    have hleft : Handling.takenBy handlings ≤ (stream.drop handling.taken).length :=
      List.le_length_drop hstream
    obtain ⟨last, hgives', hlast, hpassword', hlabel'⟩ :=
      Holds.gives_run hbodies hvalid hnext hrest hleft
    rw [List.foldlM_cons, List.foldl_cons, List.foldl_cons, ← hpassword, ← hlabel]
    exact ⟨last, hgives.bind hgives', hlast, hpassword', hlabel'⟩

end Custody

/-- However a key was handled since it was sealed, its record is locked, has the
options that it started with and the label that was put on last, and opens
under the last password. -/
theorem Protector.takeInto_unlocks {suite : Suite} (hbodies : suite.OpensBodies)
    (key : PrivateKey) {options : Kdf.Options} (hvalid : options.validate = .ok ())
    {protector : Protector} (hmemory : options.memory ≤ protector.maxMemory) (first : String)
    {handlings : List Handling} (hafford : ∀ handling ∈ handlings, handling.Affords options)
    {stream : Bytes} (hstream : 40 + Handling.takenBy handlings ≤ stream.length) :
    ∃ record, (protector.takeInto suite key first options handlings stream).result =
        .ok ⟨record, handlings.foldl Handling.password first⟩ ∧
      record.state = .locked ∧ record.options = options ∧
      record.label = handlings.foldl Handling.label none ∧
      ∀ opener : Protector, record.options.memory ≤ opener.maxMemory →
        opener.unlock suite record (handlings.foldl Handling.password first) = .ok key := by
  obtain ⟨salt, nonce, hgives⟩ :=
    gives_protectWith suite key first hvalid hmemory (Nat.le_of_add_right_le hstream)
  have hholds := Custody.holds_sealedRecord hbodies key first options salt nonce
  have hleft : Handling.takenBy handlings ≤ (stream.drop 40).length := by
    rw [List.length_drop]
    omega
  obtain ⟨⟨record, password⟩, hgives', hlast, hpassword, hlabel⟩ :=
    hholds.gives_run hbodies hvalid hafford hleft
  obtain rfl : password = handlings.foldl Handling.password first := hpassword
  refine ⟨record, (hgives.bind hgives').result_eq, hlast.state_eq, hlast.options_eq, hlabel, ?_⟩
  intro opener hopener
  rw [hlast.options_eq] at hopener
  exact hlast.unlock hvalid hopener

/-- The protectors all have other options than the record, which would be refused. -/
theorem Protector.takeInto_unlocks_frugal :
    let frugal : Kdf.Options := ⟨.dependent, 64, 1, 2, 16⟩
    let tight : Protector := ⟨64, ⟨.hybrid, 0, 0, 0, 1⟩⟩
    let handlings := [.relabel "spare", .store, .changePassword tight "second",
      .changePassword ⟨65, ⟨.independent, 9, 1, 0, 19⟩⟩ "", .relabel "tm", .store]
    Suite.standard.OpensBodies ∧ frugal.validate = .ok () ∧ frugal.memory ≤ tight.maxMemory ∧
      (∀ handling ∈ handlings, handling.Affords frugal) ∧
      40 + Handling.takenBy handlings ≤ (List.replicate 121 (5 : UInt8)).length ∧
      ∃ record, (tight.takeInto .standard ⟨.zero⟩ "first" frugal handlings
          (List.replicate 121 5)).result = .ok ⟨record, ""⟩ ∧
        record.state = .locked ∧ record.options = frugal ∧ record.label = some "tm" ∧
        ∀ opener : Protector, record.options.memory ≤ opener.maxMemory →
          opener.unlock .standard record "" = .ok ⟨.zero⟩ := by
  intro frugal tight handlings
  have hvalid : frugal.validate = .ok () := by decide
  have hmemory : frugal.memory ≤ tight.maxMemory := by decide
  have hafford : ∀ handling ∈ handlings, handling.Affords frugal := by
    simp [handlings, frugal, tight, Handling.Affords]
  have hstream : 40 + Handling.takenBy handlings ≤ (List.replicate 121 (5 : UInt8)).length := by
    simp [handlings, Handling.takenBy, Handling.taken]
  refine ⟨Suite.opensBodies_standard, hvalid, hmemory, hafford, hstream, ?_⟩
  exact takeInto_unlocks Suite.opensBodies_standard ⟨.zero⟩ hvalid hmemory "first" hafford hstream

end Envelope
