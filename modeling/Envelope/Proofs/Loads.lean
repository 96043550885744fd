import Envelope.Proofs.Circle
import Envelope.Proofs.Custody
import Envelope.Proofs.Schedules

/-!
# What loading comes to

Whatever the order, loading fails if a record fails on its own, with the error of
such a record; otherwise it makes the ring of all keys in the order of the
records. Which of several errors it is depends on the order and nothing else does.
-/

namespace Envelope

namespace KeyRing

theorem firstRepeated?_eq_some {seen keys : List PublicKey} {key : PublicKey}
    (h : firstRepeated? seen keys = some key) :
    key ∈ keys ∧ (keys.Nodup → key ∈ seen) := by
  induction keys generalizing seen with
  | nil => cases h
  | cons first rest ih =>
    unfold firstRepeated? at h
    split at h
    · rename_i hseen
      cases h
      exact ⟨List.mem_cons_self, fun _ => hseen⟩
    · obtain ⟨hmem, hold⟩ := ih h
      refine ⟨List.mem_cons_of_mem _ hmem, ?_⟩
      intro hnodup
      obtain ⟨hfirst, hrest⟩ := List.nodup_cons.1 hnodup
      rcases List.mem_cons.1 (hold hrest) with rfl | hseen
      · exact absurd hmem hfirst
      · exact hseen

/-- What making a ring can come to. -/
theorem create_cases (pairs : List KeyPair) (forwarding : List PublicKey) :
    (pairs = [] ∧ create pairs forwarding = .error (.setup .noPair)) ∨
    (¬(pairs.map (·.publicKey)).Nodup ∧ ∃ key ∈ pairs.map (·.publicKey),
      create pairs forwarding = .error (.setup (.repeatedPair key))) ∨
    (∃ ring, create pairs forwarding = .ok ring ∧ ring.pairs = pairs ∧
      ring.forwarding = .ofKeys forwarding) := by
  unfold create
  split
  · rename_i hnil
    exact .inl ⟨hnil, rfl⟩
  · split
    · rename_i key hrepeated
      obtain ⟨hmem, hold⟩ := firstRepeated?_eq_some hrepeated
      exact .inr (.inl ⟨fun hnodup => absurd (hold hnodup) (by simp), key, hmem, rfl⟩)
    · exact .inr (.inr ⟨_, rfl, rfl, rfl⟩)

end KeyRing

namespace Loading.State

variable {suite : Suite} {fresh : Pool} {phase : Phase} {entries : List (KeyRecord × String)}
  {state : State}

theorem Sound.pool_eq_of_done (h : Sound suite fresh entries state) (hdone : state.done = true) :
    state.pool = fresh := by
  have hjoined := done_iff.1 hdone
  have hworkers : state.workers = 0 := by
    apply workers_eq_zero
    intro task hmem
    obtain ⟨result, hphase⟩ := hjoined task hmem
    simp [hphase, Phase.workers]
  have hmemory : state.memory = 0 := by
    apply memory_eq_zero
    intro task hmem
    obtain ⟨result, hphase⟩ := hjoined task hmem
    simp [hphase, Phase.memory]
  have hfree := h.workers_eq
  have hfree' := h.memory_eq
  rw [hworkers, Nat.add_zero] at hfree
  rw [hmemory, Nat.add_zero] at hfree'
  rw [h.pool_eq, hfree, hfree']

theorem eq_joined_of_failure? {error : EnclaveError} (h : phase.failure? = some error) :
    phase = .joined (.error error) := by
  unfold Phase.failure? at h
  split at h
  · cases h
    rfl
  · cases h

/-- Without a failure nobody was cancelled, and all records gave their keys. -/
theorem Sound.exists_key (h : Sound suite fresh entries state) (hdone : state.done = true)
    (hfailure : state.failure = none) {task : Task} (hmem : task ∈ state.tasks) :
    ∃ key, fresh.answer suite task.record task.password = .ok key ∧ task.key? = some key := by
  have hjoined := done_iff.1 hdone
  have hcancelled : state.cancelled = false := by
    rw [h.cancelled_eq, List.any_eq_false]
    intro other hother
    obtain ⟨result, hphase⟩ := hjoined other hother
    have hnone := h.failure_none hfailure other hother
    rw [hphase] at hnone ⊢
    cases result with
    | error error => cases hnone
    | ok key => simp [Phase.failed]
  obtain ⟨result, hphase⟩ := hjoined task hmem
  have hnone := h.failure_none hfailure task hmem
  have hsound := h.tasks task hmem
  simp only [Task.Sound, hphase, hcancelled, Bool.false_eq_true, and_false, or_false] at hsound
  cases hanswer : fresh.answer suite task.record task.password with
  | error error =>
    rw [hphase, hsound, hanswer] at hnone
    cases hnone
  | ok key =>
    refine ⟨key, rfl, ?_⟩
    rw [Task.key?, hphase, hsound, hanswer]
    rfl

theorem exists_keys {tasks : List Task}
    (h : ∀ task ∈ tasks, ∃ key, fresh.answer suite task.record task.password = .ok key ∧
      task.key? = some key) :
    ∃ keys : List PrivateKey,
      tasks.map (fun task => fresh.answer suite task.record task.password) = keys.map .ok ∧
        tasks.mapM Task.key? = some keys := by
  induction tasks with
  | nil => exact ⟨[], rfl, rfl⟩
  | cons task rest ih =>
    obtain ⟨key, hanswer, hkey⟩ := h task List.mem_cons_self
    obtain ⟨keys, hanswers, hkeys⟩ := ih fun other hother => h other (List.mem_cons_of_mem _ hother)
    refine ⟨key :: keys, ?_, ?_⟩
    · rw [List.map_cons, List.map_cons, hanswer, hanswers]
    · simp [List.mapM_cons, hkey, hkeys]

/-- Loading fails as one of the records does on its own, or comes to the ring of
the keys of all of them. -/
theorem Sound.result_cases (h : Sound suite fresh entries state) (hdone : state.done = true)
    (forwarding : List PublicKey) :
    (∃ entry ∈ entries, ∃ error, fresh.answer suite entry.1 entry.2 = .error error ∧
      state.result suite forwarding = .error error) ∨
    (∃ keys : List PrivateKey,
      entries.map (fun entry => fresh.answer suite entry.1 entry.2) = keys.map .ok ∧
        state.result suite forwarding = KeyRing.create (keys.map suite.keyPair) forwarding) := by
  cases hfailure : state.failure with
  | some error =>
    obtain ⟨task, hmem, herror⟩ := h.failure_some error hfailure
    have hsound := h.tasks task hmem
    simp only [Task.Sound, eq_joined_of_failure? herror, reduceCtorEq, false_and, or_false]
      at hsound
    left
    refine ⟨(task.record, task.password), h.entries_eq ▸ List.mem_map_of_mem hmem, error, ?_, ?_⟩
    · cases hanswer : fresh.answer suite task.record task.password with
      | error found =>
        rw [hanswer] at hsound
        cases hsound
        rfl
      | ok key =>
        rw [hanswer] at hsound
        cases hsound
    · rw [result, hfailure]
  | none =>
    obtain ⟨keys, hanswers, hkeys⟩ :=
      exists_keys fun task hmem => h.exists_key hdone hfailure hmem
    right
    refine ⟨keys, ?_, ?_⟩
    · rw [← hanswers, ← h.entries_eq, List.map_map]
      rfl
    · simp only [result, hfailure, hkeys]

end Loading.State

/-- What loading some records may come to, by what each of them comes to on its
own. -/
structure Loading.Agrees (suite : Suite) (pool : Pool) (entries : List (KeyRecord × String))
    (forwarding : List PublicKey) (result : Except EnclaveError KeyRing) : Prop where
  /-- Unlocking fails if and only if it does for some record. -/
  fails_iff : (∃ error, result = .error (.crypto error)) ↔
    ∃ entry ∈ entries, ∃ error, pool.answer suite entry.1 entry.2 = .error error
  /-- The error is that of a record. -/
  error_of : ∀ error, result = .error (.crypto error) →
    ∃ entry ∈ entries, pool.answer suite entry.1 entry.2 = .error (.crypto error)
  /-- Records that fail alike leave no choice. -/
  alike : ∀ error, (∃ entry ∈ entries, pool.answer suite entry.1 entry.2 = .error error) →
    (∀ entry ∈ entries, ∀ other, pool.answer suite entry.1 entry.2 = .error other →
      other = error) → result = .error error
  /-- Without a failure it is the ring of all keys. -/
  keys : ∀ keys : List PrivateKey,
    entries.map (fun entry => pool.answer suite entry.1 entry.2) = keys.map .ok →
      result = KeyRing.create (keys.map suite.keyPair) forwarding
  empty : entries = [] → result = .error (.setup .noPair)
  /-- A key that is loaded twice is refused. -/
  twice : ∀ keys : List PrivateKey,
    entries.map (fun entry => pool.answer suite entry.1 entry.2) = keys.map .ok →
      keys ≠ [] → ¬keys.Nodup →
        ∃ key ∈ keys, result = .error (.setup (.repeatedPair (suite.publicKey key)))
  /-- Every task ends with a key or a failure. -/
  complete : result ≠ .error .incomplete

namespace Loading

variable {suite : Suite} {pool : Pool} {entries : List (KeyRecord × String)}
  {keys : List PrivateKey}

theorem answer_of_keys
    (h : entries.map (fun entry => pool.answer suite entry.1 entry.2) = keys.map .ok)
    {entry : KeyRecord × String} (hmem : entry ∈ entries) :
    ∃ key, pool.answer suite entry.1 entry.2 = .ok key := by
  have hanswer : pool.answer suite entry.1 entry.2 ∈ keys.map Except.ok :=
    h ▸ List.mem_map_of_mem hmem
  obtain ⟨key, -, hkey⟩ := List.mem_map.1 hanswer
  exact ⟨key, hkey.symm⟩

theorem agrees_of_error {entry : KeyRecord × String} {error : EnclaveError}
    (hmem : entry ∈ entries) (hanswer : pool.answer suite entry.1 entry.2 = .error error)
    (forwarding : List PublicKey) : Agrees suite pool entries forwarding (.error error) := by
  obtain ⟨fault, rfl⟩ := Pool.eq_crypto_of_answer hanswer
  have hnever : ∀ keys : List PrivateKey,
      entries.map (fun entry => pool.answer suite entry.1 entry.2) ≠ keys.map .ok := by
    intro keys hkeys
    obtain ⟨key, hkey⟩ := answer_of_keys hkeys hmem
    rw [hanswer] at hkey
    cases hkey
  constructor
  · exact ⟨fun _ => ⟨entry, hmem, _, hanswer⟩, fun _ => ⟨fault, rfl⟩⟩
  · intro error herror
    cases herror
    exact ⟨entry, hmem, hanswer⟩
  · intro error _ hall
    rw [hall entry hmem _ hanswer]
  · exact fun keys hkeys => absurd hkeys (hnever keys)
  · rintro rfl
    cases hmem
  · exact fun keys hkeys => absurd hkeys (hnever keys)
  · simp

theorem agrees_of_keys
    (hkeys : entries.map (fun entry => pool.answer suite entry.1 entry.2) = keys.map .ok)
    (forwarding : List PublicKey) :
    Agrees suite pool entries forwarding
      (KeyRing.create (keys.map suite.keyPair) forwarding) := by
  have hcreate := KeyRing.create_cases (keys.map suite.keyPair) forwarding
  have hsetup : ∀ error, KeyRing.create (keys.map suite.keyPair) forwarding = .error error →
      ∃ fault, error = .setup fault := by
    intro error herror
    rcases hcreate with ⟨-, h⟩ | ⟨-, key, -, h⟩ | ⟨ring, h, -⟩
    · exact ⟨_, Except.error.inj (herror.symm.trans h)⟩
    · exact ⟨_, Except.error.inj (herror.symm.trans h)⟩
    · rw [herror] at h
      cases h
  have hsame : ∀ other : List PrivateKey,
      entries.map (fun entry => pool.answer suite entry.1 entry.2) = other.map .ok →
        other = keys := by
    intro other hother
    exact (List.map_inj_right fun _ _ h => Except.ok.inj h).1 (hother.symm.trans hkeys)
  constructor
  · constructor
    · rintro ⟨error, herror⟩
      obtain ⟨fault, hfault⟩ := hsetup _ herror
      cases hfault
    · rintro ⟨entry, hmem, error, herror⟩
      obtain ⟨key, hkey⟩ := answer_of_keys hkeys hmem
      rw [herror] at hkey
      cases hkey
  · intro error herror
    obtain ⟨fault, hfault⟩ := hsetup _ herror
    cases hfault
  · rintro error ⟨entry, hmem, herror⟩
    obtain ⟨key, hkey⟩ := answer_of_keys hkeys hmem
    rw [herror] at hkey
    cases hkey
  · intro other hother
    rw [hsame other hother]
  · rintro rfl
    have hnil : keys = [] := List.map_eq_nil_iff.1 hkeys.symm
    rw [hnil]
    rfl
  · intro other hother hne hrepeated
    rw [hsame other hother] at hne hrepeated ⊢
    rcases hcreate with ⟨hnil, -⟩ | ⟨-, key, hmem, h⟩ | ⟨ring, -, hpairs, -⟩
    · exact absurd (List.map_eq_nil_iff.1 hnil) hne
    · rw [List.map_map] at hmem
      obtain ⟨own, hown, rfl⟩ := List.mem_map.1 hmem
      exact ⟨own, hown, h⟩
    · have hnodup := ring.nodup
      rw [hpairs, List.map_map] at hnodup
      refine absurd ((List.pairwise_map.1 hnodup).imp ?_) hrepeated
      intro a b hne heq
      exact hne (by rw [heq])
  · intro h
    obtain ⟨fault, hfault⟩ := hsetup _ h
    cases hfault

theorem State.Sound.agrees {state : State} (h : state.Sound suite pool entries)
    (hdone : state.done = true) (forwarding : List PublicKey) :
    Agrees suite pool entries forwarding (state.result suite forwarding) := by
  rcases h.result_cases hdone forwarding with
    ⟨entry, hmem, error, hanswer, hresult⟩ | ⟨keys, hkeys, hresult⟩
  · rw [hresult]
    exact agrees_of_error hmem hanswer forwarding
  · rw [hresult]
    exact agrees_of_keys hkeys forwarding

end Loading

/-- In whatever order the tasks take their steps, each of them is joined after at
most six, and then every permit is back and loading comes to what the records
come to on their own. Loading follows one of these orders. -/
theorem KeyRing.load_in_any_order (suite : Suite) {config : Config} {fresh pool : Pool}
    (hcreate : Pool.create config = .ok fresh) (hpool : pool = fresh ∨ pool = fresh.close)
    (entries : List (KeyRecord × String)) (forwarding : List PublicKey) :
    (∀ record password stream, pool.unlock suite record password stream =
      some ⟨pool, pool.answer suite record password, stream, []⟩) ∧
    (∀ schedule state, (Loading.start pool entries).run suite schedule = some state →
      schedule.length ≤ 6 * entries.length ∧
      (state.done = false → ∃ i after, state.step? suite i = some after) ∧
      (state.done = true → state.pool = pool ∧
        Loading.Agrees suite pool entries forwarding (state.result suite forwarding))) ∧
    ∃ schedule state, (Loading.start pool entries).run suite schedule = some state ∧
      state.done = true ∧
      KeyRing.load suite pool entries forwarding = (state.result suite forwarding, state.pool) := by
  have hrest : pool.AtRest := by
    rcases hpool with rfl | rfl
    · exact Pool.atRest_of_create hcreate
    · exact (Pool.atRest_of_create hcreate).close
  have hstart := Loading.State.sound_start suite pool entries
  have hrank := Loading.State.rank_start pool entries
  refine ⟨?_, ?_, ?_⟩
  · exact fun record password stream => hrest.unlock_eq stream
  · intro schedule state hrun
    obtain ⟨hsound, hlength⟩ := hstart.run hrun
    refine ⟨by omega, ?_, ?_⟩
    · exact fun hdone => hsound.exists_step? hrest hdone
    · exact fun hdone => ⟨hsound.pool_eq_of_done hdone, hsound.agrees hdone forwarding⟩
  · obtain ⟨schedule, hrun⟩ := Loading.State.exists_run_eq_settle suite (6 * entries.length)
      (Loading.start pool entries)
    exact ⟨schedule, _, hrun, hstart.done_settle hrest (Nat.le_of_eq hrank), rfl⟩

/-- The record of a party's key under the default options, and its password. -/
def partyRecord (byte : UInt8) (password : String) : KeyRecord × String :=
  (Protector.sealedRecord .standard (party byte) password .standard ⟨.zero⟩ ⟨.zero⟩, password)

theorem answer_partyRecord {pool : Pool} (byte : UInt8) (password : String)
    (hmemory : Kdf.Options.standard.memory ≤ pool.protector.maxMemory)
    (hrefusal : pool.refusal? .standard = none) :
    pool.answer .standard (partyRecord byte password).1 (partyRecord byte password).2 =
      .ok (party byte) := by
  have hholds := Custody.holds_sealedRecord Suite.opensBodies_standard (party byte) password
    .standard ⟨.zero⟩ ⟨.zero⟩
  have hunlock := hholds.unlock (by decide) hmemory
  rw [Pool.answer_of_not_refused hrefusal]
  exact congrArg (Except.mapError EnclaveError.crypto) hunlock

/-- Two records give their keys in any order; with a third one that is not locked,
every order fails with its error. -/
theorem KeyRing.load_in_any_order_parties :
    let entries := [partyRecord 2 "second", partyRecord 1 "first"]
    let stray := ({ (partyRecord 3 "third").1 with state := .unlocked }, "third")
    ∃ pool, Pool.create .standard = .ok pool ∧
      KeyRing.load .standard pool entries [] =
        (KeyRing.create [Suite.standard.keyPair (party 2), Suite.standard.keyPair (party 1)] [],
          pool) ∧
      ∀ schedule state, (Loading.start pool (stray :: entries)).run .standard schedule =
        some state → state.done = true →
          state.pool = pool ∧ state.result .standard [] = .error (.crypto .notLocked) := by
  intro entries stray
  obtain ⟨pool, hcreate, hmemory, hrefusal⟩ : ∃ pool, Pool.create .standard = .ok pool ∧
      Kdf.Options.standard.memory ≤ pool.protector.maxMemory ∧ pool.refusal? .standard = none :=
    ⟨_, rfl, by decide, by decide⟩
  have hkey := fun byte password => answer_partyRecord byte password hmemory hrefusal
  have hunlock : pool.protector.unlock .standard stray.1 stray.2 = .error .notLocked := rfl
  have hstray : pool.answer .standard stray.1 stray.2 = .error (.crypto .notLocked) := by
    rw [Pool.answer_of_not_refused hrefusal, hunlock]
    rfl
  refine ⟨pool, hcreate, ?_, ?_⟩
  · obtain ⟨-, horders, schedule, state, hrun, hdone, hload⟩ :=
      load_in_any_order .standard hcreate (.inl rfl) entries []
    obtain ⟨hpool, hagrees⟩ := (horders schedule state hrun).2.2 hdone
    rw [hload, hpool, hagrees.keys [party 2, party 1] (by simp [entries, hkey])]
    rfl
  · intro schedule state hrun hdone
    obtain ⟨-, horders, -⟩ := load_in_any_order .standard hcreate (.inl rfl) (stray :: entries) []
    obtain ⟨hpool, hagrees⟩ := (horders schedule state hrun).2.2 hdone
    refine ⟨hpool, hagrees.alike _ ⟨stray, List.mem_cons_self, hstray⟩ ?_⟩
    intro entry hmem other hother
    simp only [entries, List.mem_cons, List.not_mem_nil, or_false] at hmem
    rcases hmem with rfl | rfl | rfl
    · exact Except.error.inj (hother.symm.trans hstray)
    · rw [hkey] at hother
      cases hother
    · rw [hkey] at hother
      cases hother

end Envelope
