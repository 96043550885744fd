import Envelope.Proofs.Delivery
import Envelope.Proofs.Loads
import Envelope.Proofs.Permits

/-!
# From a configuration to an enclave that reads

The pool of a valid configuration generates a key for every password. Its record
passes every gate on the way back: what the configuration admits, the pool grants
and the protector derives, and the options are valid wherever they are looked at.
So records and passwords give the same keys again, in the same order, and an
enclave of these keys reads whatever is sent to them.
-/

namespace Envelope

/-! ## Generating a key -/

/-- A key that was drawn off the front of some bytes, and its record. -/
structure Generated (suite : Suite) (options : Kdf.Options) (password : String) (bytes : Bytes)
    (pair : KeyPair) (record : KeyRecord) : Prop where
  private_eq : pair.privateKey.octets.toBytes = bytes.take 32
  pair_eq : pair = suite.keyPair pair.privateKey
  label_eq : record.label = some pair.publicKey.toBase64
  holds : Custody.Holds suite pair.privateKey options ⟨record, password⟩

/-- The keys that were generated for some passwords, each off the next 72 bytes. -/
inductive GeneratedAll (suite : Suite) (options : Kdf.Options) :
    List String → Bytes → List (KeyPair × KeyRecord) → Prop
  | nil {bytes} : GeneratedAll suite options [] bytes []
  | cons {password passwords bytes pair record generated}
      (first : Generated suite options password bytes pair record)
      (rest : GeneratedAll suite options passwords (bytes.drop 72) generated) :
      GeneratedAll suite options (password :: passwords) bytes ((pair, record) :: generated)

/-- The bytes settle the pair. -/
theorem Generated.eq_keyPair {suite : Suite} {options : Kdf.Options} {password : String}
    {bytes : Bytes} {pair : KeyPair} {record : KeyRecord}
    (h : Generated suite options password bytes pair record) (key : PrivateKey)
    (hkey : bytes.take 32 = key.octets.toBytes) : pair = suite.keyPair key := by
  have hprivate : pair.privateKey = key :=
    PrivateKey.ext (Octets.ext (h.private_eq.trans hkey))
  rw [h.pair_eq, hprivate]

/-- A private key, a salt and a nonce take 72 bytes. -/
theorem Protector.gives_generate {suite : Suite} (hbodies : suite.OpensBodies)
    {protector : Protector} (password : String) (hvalid : protector.options.validate = .ok ())
    (hmemory : protector.options.memory ≤ protector.maxMemory) {stream : Bytes}
    (hstream : 72 ≤ stream.length) :
    ∃ pair record, (generate suite protector password).Gives stream 72 (pair, record) ∧
      Generated suite protector.options password stream pair record := by
  have hfront : 32 ≤ stream.length := Nat.le_trans (by decide) hstream
  let key : PrivateKey := ⟨⟨stream.take 32, List.length_take_of_le hfront⟩⟩
  have hkey : Sampler.privateKey.Gives stream 32 key := Sampler.gives_privateKey hfront
  have hrest : 40 ≤ (stream.drop 32).length := List.le_length_drop hstream
  obtain ⟨salt, nonce, hsealed⟩ := gives_protectWith suite key password hvalid hmemory hrest
  let label := (suite.keyPair key).publicKey.toBase64
  have hlabelled := hsealed.map fun record => (suite.keyPair key, record.withLabel label)
  have hholds := Custody.holds_sealedRecord hbodies key password protector.options salt nonce
  refine ⟨suite.keyPair key, _, ?_, rfl, rfl, rfl, hholds.label (some label)⟩
  unfold generate protect
  refine hkey.bind (?_ : Sampler.Gives _ (stream.drop 32) 40 _)
  exact hlabelled

namespace Pool

variable {suite : Suite} {pool : Pool} {options : Kdf.Options}

/-- The operation succeeds at once, takes so many bytes and leaves the pool as it
was. -/
def Gives {α : Type} (pool : Pool) (operation : Bytes → Option (Turn α)) (stream : Bytes)
    (taken : Nat) (a : α) : Prop :=
  ∃ ledger, operation stream = some ⟨pool, .ok a, stream.drop taken, ledger⟩

theorem AtRest.gives_holding (h : pool.AtRest) (hgranted : pool.refusal? options = none)
    {α : Type} {work : Sampler EnclaveError α} {stream : Bytes} {taken : Nat} {a : α}
    (hwork : work.Gives stream taken a) :
    pool.Gives (pool.holding options work) stream taken a := by
  refine ⟨(work stream).ledger, ?_⟩
  rw [h.holding_eq, hgranted, ← hwork.result_eq, ← hwork.left_eq]
  rfl

/-- Every gate between a pool and work with the given options is open. -/
structure Admits (pool : Pool) (options : Kdf.Options) : Prop where
  atRest : pool.AtRest
  granted : pool.refusal? options = none
  valid : options.validate = .ok ()
  affords : options.memory ≤ pool.protector.maxMemory

/-- What a configuration is checked for opens all of them. -/
theorem exists_create {config : Config} (h : config.validate = .ok ()) :
    ∃ pool, create config = .ok pool ∧ pool.protector.options = config.options ∧
      pool.Admits config.options := by
  obtain ⟨-, -, hvalid, hmemory, -⟩ := Config.validate_eq_ok_iff.1 h
  have hcreate := create_eq_ok_iff.2 ⟨h, rfl⟩
  refine ⟨_, hcreate, rfl, atRest_of_create hcreate, ?_, hvalid, hmemory⟩
  exact refusal?_eq_none_iff.2 ⟨hmemory, rfl⟩

theorem Admits.gives_generate (h : pool.Admits pool.protector.options)
    (hbodies : suite.OpensBodies) (password : String) {stream : Bytes}
    (hstream : 72 ≤ stream.length) :
    ∃ pair record, pool.Gives (pool.generate suite password) stream 72 (pair, record) ∧
      Generated suite pool.protector.options password stream pair record := by
  obtain ⟨pair, record, hgives, hgenerated⟩ :=
    Protector.gives_generate hbodies password h.valid h.affords hstream
  exact ⟨pair, record, h.atRest.gives_holding h.granted (hgives.mapError _), hgenerated⟩

/-- Generates a key for each password, one after another, up to the first failure. -/
def generateAll (suite : Suite) (pool : Pool) :
    List String → Bytes → Option (Turn (List (KeyPair × KeyRecord)))
  | [], stream => some ⟨pool, .ok [], stream, []⟩
  | password :: passwords, stream => do
    let ⟨pool, result, left, ledger⟩ ← pool.generate suite password stream
    match result with
    | .error error => return ⟨pool, .error error, left, ledger⟩
    | .ok entry =>
      let ⟨pool, rest, left, more⟩ ← pool.generateAll suite passwords left
      return ⟨pool, rest.map (entry :: ·), left, ledger ++ more⟩

theorem Admits.gives_generateAll (h : pool.Admits pool.protector.options)
    (hbodies : suite.OpensBodies) {passwords : List String} {stream : Bytes}
    (hstream : 72 * passwords.length ≤ stream.length) :
    ∃ generated,
      pool.Gives (pool.generateAll suite passwords) stream (72 * passwords.length) generated ∧
        GeneratedAll suite pool.protector.options passwords stream generated := by
  induction passwords generalizing stream with
  | nil => exact ⟨[], ⟨[], rfl⟩, .nil⟩
  | cons password passwords ih =>
    rw [List.length_cons, Nat.mul_succ] at hstream
    have hrest : 72 * passwords.length ≤ (stream.drop 72).length :=
      List.le_length_drop (by omega)
    obtain ⟨pair, record, ⟨ledger, hgenerate⟩, hfirst⟩ :=
      h.gives_generate hbodies password (Nat.le_of_add_left_le hstream)
    obtain ⟨generated, ⟨more, hgenerateAll⟩, hall⟩ := ih hrest
    refine ⟨(pair, record) :: generated, ⟨ledger ++ more, ?_⟩, .cons hfirst hall⟩
    rw [generateAll, hgenerate]
    simp only [Option.bind_eq_bind, Option.bind_some, hgenerateAll, List.drop_drop,
      List.length_cons, Nat.mul_succ, Nat.add_comm 72]
    rfl

end Pool

/-! ## Reading the records back -/

namespace GeneratedAll

variable {suite : Suite} {options : Kdf.Options} {passwords : List String} {bytes : Bytes}
  {generated : List (KeyPair × KeyRecord)}

theorem length_eq (h : GeneratedAll suite options passwords bytes generated) :
    generated.length = passwords.length := by
  induction h with
  | nil => rfl
  | cons first rest ih => rw [List.length_cons, ih, List.length_cons]

theorem exists_of_mem (h : GeneratedAll suite options passwords bytes generated)
    {entry : KeyPair × KeyRecord} (hmem : entry ∈ generated) :
    ∃ password front, Generated suite options password front entry.1 entry.2 := by
  induction h with
  | nil => cases hmem
  | cons first rest ih =>
    rcases List.mem_cons.1 hmem with rfl | hmem
    · exact ⟨_, _, first⟩
    · exact ih hmem

theorem pairs_eq (h : GeneratedAll suite options passwords bytes generated) :
    generated.map (·.1) = (generated.map (·.1.privateKey)).map suite.keyPair := by
  rw [List.map_map]
  apply List.map_congr_left
  intro entry hmem
  obtain ⟨password, front, hentry⟩ := h.exists_of_mem hmem
  exact hentry.pair_eq

theorem decode_encode (h : GeneratedAll suite options passwords bytes generated)
    (hvalid : options.validate = .ok ()) :
    (generated.mapM fun entry => KeyRecord.decode entry.2.encode) =
      .ok (generated.map (·.2)) := by
  induction h with
  | nil => rfl
  | cons first rest ih =>
    rw [List.mapM_cons, ih, KeyRecord.decode_encode, first.holds.options_eq, hvalid]
    rfl

/-- Each record gives its key under its password. -/
theorem answers (h : GeneratedAll suite options passwords bytes generated) {pool : Pool}
    (hpool : pool.Admits options) :
    ((generated.map (·.2)).zip passwords).map (fun entry => pool.answer suite entry.1 entry.2) =
      (generated.map (·.1.privateKey)).map .ok := by
  induction h with
  | nil => rfl
  | cons first rest ih =>
    have hunlock := first.holds.unlock hpool.valid hpool.affords
    -- The pool looks at the options that the record names, not at its own.
    have hgranted := hpool.granted
    rw [← first.holds.options_eq] at hgranted
    simp only [List.map_cons, List.zip_cons_cons, ih, Pool.answer_of_not_refused hgranted, hunlock]
    rfl

end GeneratedAll

/-! ## Loading the keys -/

/-- Loading some records goes on until the ring is made and every permit is back,
whatever order its steps take. -/
structure Loading.EndsWith (suite : Suite) (pool : Pool) (entries : List (KeyRecord × String))
    (forwarding : List PublicKey) (ring : KeyRing) : Prop where
  goes_on : ∀ schedule state, (start pool entries).run suite schedule = some state →
    state.done = false → ∃ i after, state.step? suite i = some after
  ends : ∀ schedule state, (start pool entries).run suite schedule = some state →
    state.done = true → state.result suite forwarding = .ok ring ∧ state.pool = pool
  load_eq : KeyRing.load suite pool entries forwarding = (.ok ring, pool)

/-- Keys of different parties make a ring. -/
theorem Loading.exists_endsWith {suite : Suite} {pool : Pool} (hrest : pool.AtRest)
    {entries : List (KeyRecord × String)} {keys : List PrivateKey}
    (hkeys : entries.map (fun entry => pool.answer suite entry.1 entry.2) = keys.map .ok)
    (hne : keys ≠ []) (hnodup : ((keys.map suite.keyPair).map (·.publicKey)).Nodup)
    (forwarding : List PublicKey) :
    ∃ ring, EndsWith suite pool entries forwarding ring ∧ ring.pairs = keys.map suite.keyPair ∧
      ring.forwarding = .ofKeys forwarding := by
  rcases KeyRing.create_cases (keys.map suite.keyPair) forwarding with
    ⟨hnil, -⟩ | ⟨hrepeated, -⟩ | ⟨ring, hcreate, hpairs, hforwarding⟩
  · exact absurd (List.map_eq_nil_iff.1 hnil) hne
  · exact absurd hnodup hrepeated
  · have hstart := State.sound_start suite pool entries
    -- Where all answers are keys, no order of steps can change what they come to.
    have hends : ∀ schedule state, (start pool entries).run suite schedule = some state →
        state.done = true → state.result suite forwarding = .ok ring ∧ state.pool = pool := by
      intro schedule state hrun hdone
      obtain ⟨hsound, -⟩ := hstart.run hrun
      have hresult := (hsound.agrees hdone forwarding).keys keys hkeys
      exact ⟨hresult.trans hcreate, hsound.pool_eq_of_done hdone⟩
    refine ⟨ring, ⟨?_, hends, ?_⟩, hpairs, hforwarding⟩
    · intro schedule state hrun hdone
      exact (hstart.run hrun).1.exists_step? hrest hdone
    · obtain ⟨schedule, hrun⟩ :=
        State.exists_run_eq_settle suite (6 * entries.length) (start pool entries)
      have hrank := State.rank_start pool entries
      have hdone := hstart.done_settle hrest (Nat.le_of_eq hrank)
      obtain ⟨hresult, hpool⟩ := hends schedule _ hrun hdone
      rw [KeyRing.load, hresult, hpool]

theorem KeyRing.head?_publicKey (ring : KeyRing) :
    (ring.pairs.map (·.publicKey)).head? = some ring.default := by
  rw [List.head?_map, List.head?_eq_some_head ring.pairs_ne_nil]
  rfl

/-! ## Reading -/

/-- Anyone sealed the message for the recipients, at once or as a draft first. -/
inductive Payload.EncryptedFor (suite : Suite) (message : Bytes) (recipients : List PublicKey) :
    Payload → Prop
  | sealed {sender stream payload}
      (h : (encrypt suite message sender recipients stream).result = .ok payload) :
      EncryptedFor suite message recipients payload
  | drafted {sender stream later draft payload}
      (hdraft : (Draft.encrypt suite message sender stream).result = .ok draft)
      (h : (draft.address suite sender recipients later).result = .ok payload) :
      EncryptedFor suite message recipients payload

theorem Payload.EncryptedFor.exists_sealedFor {suite : Suite} (hsuite : suite.OpensBoxes)
    {message : Bytes} {recipients : List PublicKey} {payload : Payload}
    (h : EncryptedFor suite message recipients payload) :
    ∃ sender, payload.SealedFor suite message sender recipients := by
  cases h with
  | sealed h => exact ⟨_, encrypt_cases h⟩
  | drafted hdraft h => exact ⟨_, encrypt_address_cases hsuite hdraft h⟩

namespace Enclave

variable {suite : Suite}

/-- The enclave reads whatever is sent to one of the pairs. -/
def ReadsFor (suite : Suite) (enclave : Enclave) (pairs : List KeyPair) : Prop :=
  ∀ pair ∈ pairs, ∀ message recipients payload,
    Payload.EncryptedFor suite message recipients payload → pair.publicKey ∈ recipients →
      enclave.decrypt suite payload pair.publicKey = .ok message

theorem readsFor_held {enclave : Enclave} (hsuite : suite.Lawful)
    (hrunning : enclave.running = true) (hpaired : enclave.ring.Paired suite) :
    enclave.ReadsFor suite enclave.ring.pairs := by
  intro pair hmem message recipients payload hpayload hrecipient
  obtain ⟨sender, hsealed⟩ := hpayload.exists_sealedFor hsuite.opensBoxes
  rw [hpaired pair hmem] at hrecipient
  exact (decrypt_eq_ok_iff hrunning).2
    ⟨_, KeyRing.privateKey_of_mem hmem, hsealed.decrypt_recipient hsuite hrecipient⟩

/-- The pool of a valid configuration generates a key for every password, off 72
random bytes each. Stored and read back, the records and the passwords load as
the same pairs in the same order, unless two of them share a public key, and the
enclave reads whatever anyone sends to one of them. -/
theorem provisioned (hsuite : suite.Lawful) {config : Config} (hconfig : config.validate = .ok ())
    {passwords : List String} (hne : passwords ≠ []) {stream : Bytes}
    (hstream : 72 * passwords.length ≤ stream.length) :
    ∃ pool generated, Pool.create config = .ok pool ∧
      (∀ password stream, 72 ≤ stream.length →
        ∃ entry, pool.Gives (pool.generate suite password) stream 72 entry) ∧
      pool.Gives (pool.generateAll suite passwords) stream (72 * passwords.length) generated ∧
      GeneratedAll suite config.options passwords stream generated ∧
      (∀ entry ∈ generated, entry.2.label = some entry.1.publicKey.toBase64) ∧
      (generated.mapM fun entry => KeyRecord.decode entry.2.encode) =
        .ok (generated.map (·.2)) ∧
      (((generated.map (·.1)).map (·.publicKey)).Nodup → ∀ forwarding, ∃ ring,
        Loading.EndsWith suite pool ((generated.map (·.2)).zip passwords) forwarding ring ∧
        ring.pairs = generated.map (·.1) ∧ ring.forwarding = .ofKeys forwarding ∧
        ((generated.map (·.1)).map (·.publicKey)).head? = some ring.default ∧
        (start ring).ReadsFor suite (generated.map (·.1))) := by
  obtain ⟨pool, hcreate, hoptions, hadmits⟩ := Pool.exists_create hconfig
  rw [← hoptions] at hadmits ⊢
  obtain ⟨generated, hgives, hall⟩ := hadmits.gives_generateAll hsuite.opensBodies hstream
  refine ⟨pool, generated, hcreate, ?_, hgives, hall, ?_, hall.decode_encode hadmits.valid, ?_⟩
  · intro password stream hstream
    obtain ⟨pair, record, hgives, -⟩ :=
      hadmits.gives_generate hsuite.opensBodies password hstream
    exact ⟨_, hgives⟩
  · intro entry hmem
    obtain ⟨password, front, hentry⟩ := hall.exists_of_mem hmem
    exact hentry.label_eq
  · intro hnodup forwarding
    have hkeys : generated.map (·.1.privateKey) ≠ [] := by
      intro hnil
      have hlength := hall.length_eq
      rw [List.map_eq_nil_iff.1 hnil] at hlength
      exact hne (List.length_eq_zero_iff.1 hlength.symm)
    rw [hall.pairs_eq] at hnodup
    obtain ⟨ring, hends, hpairs, hforwarding⟩ :=
      Loading.exists_endsWith hadmits.atRest (hall.answers hadmits) hkeys hnodup forwarding
    have hpaired : ring.Paired suite := by
      intro pair hmem
      rw [hpairs] at hmem
      obtain ⟨key, -, rfl⟩ := List.mem_map.1 hmem
      rfl
    rw [← hall.pairs_eq] at hpairs
    refine ⟨ring, hends, hpairs, hforwarding, ?_, ?_⟩
    · rw [← hpairs]
      exact ring.head?_publicKey
    · rw [← hpairs]
      exact readsFor_held hsuite rfl hpaired

/-- A configuration whose budget is just enough for one derivation. -/
def tight : Config where
  options := ⟨.hybrid, 64, 1, 1, 19⟩
  unlocks := 1
  memoryBudget := 64
  forwarding := [partyKey 3]

/-- Random bytes that make two parties, with some to spare. -/
def supply : Bytes :=
  (party 1).octets.toBytes ++ List.replicate 40 7 ++ (party 2).octets.toBytes ++
    List.replicate 43 7

/-- The letter from the first party to the second is read by the second. -/
theorem provisioned_tight :
    let passwords := ["one", "two"]
    Suite.quartet.Lawful ∧ tight.validate = .ok () ∧ passwords ≠ [] ∧
      72 * passwords.length ≤ supply.length ∧
      ∃ pool generated ring, Pool.create tight = .ok pool ∧
        pool.Gives (pool.generateAll .quartet passwords) supply 144 generated ∧
        generated.map (·.1) = [Suite.quartet.keyPair (party 1), Suite.quartet.keyPair (party 2)] ∧
        ((generated.map (·.1)).map (·.publicKey)).Nodup ∧
        KeyRing.load .quartet pool ((generated.map (·.2)).zip passwords) tight.forwarding =
          (.ok ring, pool) ∧
        ring.default = partyKey 1 ∧
        (start ring).decrypt .quartet letter (partyKey 2) = .ok [104, 105] := by
  intro passwords
  have hsuite : Suite.quartet.Lawful := Suite.lawful_circle _
  have hconfig : tight.validate = .ok () := by decide +kernel
  have hne : passwords ≠ [] := List.cons_ne_nil _ _
  have hstream : 72 * passwords.length ≤ supply.length := by decide +kernel
  obtain ⟨pool, generated, hcreate, -, hgives, hall, -, -, hloads⟩ :=
    provisioned hsuite hconfig hne hstream
  have hpairs : generated.map (·.1) =
      [Suite.quartet.keyPair (party 1), Suite.quartet.keyPair (party 2)] := by
    obtain _ | ⟨first, _ | ⟨second, ⟨⟩⟩⟩ : GeneratedAll .quartet tight.options ["one", "two"]
      supply generated := hall
    simp only [List.map_cons, first.eq_keyPair (party 1) (by decide +kernel),
      second.eq_keyPair (party 2) (by decide +kernel)]
    rfl
  have hnodup : ((generated.map (·.1)).map (·.publicKey)).Nodup := by
    rw [hpairs]
    decide +kernel
  obtain ⟨ring, hends, -, -, hdefault, hreads⟩ := hloads hnodup tight.forwarding
  refine ⟨hsuite, hconfig, hne, hstream, pool, generated, ring, hcreate, hgives, hpairs, hnodup,
    hends.load_eq, ?_, ?_⟩
  · rw [hpairs] at hdefault
    exact (Option.some.inj hdefault).symm
  · refine hreads (Suite.quartet.keyPair (party 2)) ?_ [104, 105] [partyKey 2] letter
      (.sealed encrypt_letter) List.mem_cons_self
    rw [hpairs]
    exact List.mem_cons_of_mem _ List.mem_cons_self

end Enclave

end Envelope
