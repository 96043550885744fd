import Envelope.Proofs.Discretion
import Envelope.Proofs.Permits

/-!
# Pools for one job after another

When each job ends before the next one starts, a pool has all its permits at every
start and nobody waits. What the pool then adds to its protector is told here without
permits: records beyond the budget are refused first of all, then everything is once
the pool is closed, and then what was cancelled comes to nothing. Everything else is
the protector's answer. The pool's gate stands before that of the derivation and lets
no more memory through, so that nobody meets the second one.
-/

namespace Envelope

namespace Protector

variable {suite : Suite} {protector : Protector} {record : KeyRecord} {password : String}

/-- Under valid options within the limit, sealing a key can only run out of random bytes. -/
theorem failsOnly_protect (suite : Suite) (key : PrivateKey) (password : String)
    (hvalid : protector.options.validate = .ok ())
    (hmemory : protector.options.memory ≤ protector.maxMemory) :
    (protect suite protector key password).FailsOnly (· = .resource .randomness) := by
  rw [protect, protectWith_eq suite key password hvalid hmemory]
  refine Sampler.failsOnly_salt.bind fun salt => ?_
  refine Sampler.failsOnly_nonce.bind fun nonce => ?_
  exact (Sampler.failsOnly_sealBody suite _ nonce _).map _

theorem failsOnly_generate (suite : Suite) (password : String)
    (hvalid : protector.options.validate = .ok ())
    (hmemory : protector.options.memory ≤ protector.maxMemory) :
    (generate suite protector password).FailsOnly (· = .resource .randomness) := by
  refine Sampler.failsOnly_privateKey.bind fun key => ?_
  exact (failsOnly_protect suite key password hvalid hmemory).map _

/-- Within the limit, no attempt fails for lack of memory. -/
theorem kind_ne_resource_of_unlock {error : Error}
    (hmemory : record.options.memory ≤ protector.maxMemory)
    (h : protector.unlock suite record password = .error error) : error.kind ≠ .resource := by
  rw [eq_failure_of_unlock h, kind_failure, if_neg (UInt32.not_lt.2 hmemory)]
  split
  · decide
  · split <;> decide

end Protector

namespace Pool

variable {suite : Suite} {config : Config} {closed : Bool}

/-! ## Jobs -/

inductive Job
  | unlock (record : KeyRecord) (password : String)
  | unlockUnless (cancelled : Bool) (record : KeyRecord) (password : String)
  | protect (key : PrivateKey) (password : String)
  | generate (password : String)
  | close
deriving DecidableEq

/-- What jobs come to when they succeed. -/
inductive Product
  | key (key : PrivateKey)
  /-- The key of a record, if the job was not cancelled. -/
  | attempt (key? : Option PrivateKey)
  | record (record : KeyRecord)
  | keyPair (pair : KeyPair) (record : KeyRecord)
  | done
deriving DecidableEq

def Turn.map {α β : Type} (f : α → β) (turn : Turn α) : Turn β :=
  ⟨turn.pool, turn.outcome.result.map f, turn.outcome.left, turn.outcome.ledger⟩

/-- Does a job; `none` if it waits for permits. -/
def perform (suite : Suite) (pool : Pool) (job : Job) (stream : Bytes) : Option (Turn Product) :=
  match job with
  | .unlock record password => (pool.unlock suite record password stream).map (.map .key)
  | .unlockUnless cancelled record password =>
    (pool.unlockUnless suite cancelled record password stream).map (.map .attempt)
  | .protect key password => (pool.protect suite key password stream).map (.map .record)
  | .generate password =>
    (pool.generate suite password stream).map (.map fun made => .keyPair made.1 made.2)
  | .close => some ⟨pool.close, .ok .done, stream, []⟩

/-- Work that is refused beyond the budget, and at a closed pool. -/
def gated {α : Type} (config : Config) (closed : Bool) (options : Kdf.Options)
    (work : Sampler EnclaveError α) : Sampler EnclaveError α :=
  if config.memoryBudget < options.memory then
    Sampler.fail (.crypto (.resource (.unlocking options.memory config.memoryBudget)))
  else if closed then Sampler.fail (.crypto (.resource .poolClosed))
  else work

namespace Job

def closes : Job → Bool
  | .close => true
  | _ => false

/-- Whether the job seals a key under the options of the configuration. -/
def seals : Job → Bool
  | .protect .. => true
  | .generate _ => true
  | _ => false

/-- The options of the derivation that a job asks for permits for. -/
def options? (config : Config) : Job → Option Kdf.Options
  | .unlock record _ => some record.options
  | .unlockUnless _ record _ => some record.options
  | .protect .. => some config.options
  | .generate _ => some config.options
  | .close => none

/-- What a protector makes of a job without a pool. -/
def unpooled (suite : Suite) (protector : Protector) : Job → Sampler Error Product
  | .unlock record password => return .key (← protector.unlock suite record password)
  | .unlockUnless cancelled record password =>
    if cancelled then return .attempt none
    else return .attempt (some (← protector.unlock suite record password))
  | .protect key password => return .record (← protector.protect suite key password)
  | .generate password => do
    let made ← protector.generate suite password
    return .keyPair made.1 made.2
  | .close => return .done

/-- What a job comes to at a pool of a configuration, told without permits. -/
def expected (suite : Suite) (config : Config) (closed : Bool) (job : Job) :
    Sampler EnclaveError Product :=
  match job.options? config with
  | none => return .done
  | some options =>
    gated config closed options
      ((job.unpooled suite ⟨config.memoryBudget, config.options⟩).mapError .crypto)

end Job

/-! ## One job -/

/-- The pool of a configuration with all its permits. -/
def idle (config : Config) (closed : Bool) : Pool where
  protector := ⟨config.memoryBudget, config.options⟩
  maxWorkers := config.unlocks.toNat
  budget := config.memoryBudget
  workers := config.unlocks.toNat
  memory := config.memoryBudget.toNat
  closed := closed

theorem create_eq_idle (hvalid : config.validate = .ok ()) :
    create config = .ok (idle config false) :=
  create_eq_ok_iff.2 ⟨hvalid, rfl⟩

theorem atRest_idle (hvalid : config.validate = .ok ()) (closed : Bool) :
    (idle config closed).AtRest := by
  have hopen := atRest_of_create (create_eq_idle hvalid)
  exact ⟨hopen.workers_pos, rfl⟩

theorem map_holding {α β : Type} (pool : Pool) (options : Kdf.Options)
    (work : Sampler EnclaveError α) (f : α → β) (stream : Bytes) :
    (pool.holding options work stream).map (.map f) =
      pool.holding options (work >>= fun a => pure (f a)) stream := by
  unfold holding
  cases pool.request options with
  | refused error => rfl
  | waits => rfl
  | granted rest =>
    simp only [Option.map_some, Turn.map, Sampler.bind_pure_apply]

theorem holding_idle (hvalid : config.validate = .ok ()) {α : Type} (closed : Bool)
    (options : Kdf.Options) (work : Sampler EnclaveError α) (stream : Bytes) :
    (idle config closed).holding options work stream =
      some ⟨idle config closed, gated config closed options work stream⟩ := by
  rw [(atRest_idle hvalid closed).holding_eq]
  unfold refusal? gated idle
  split
  · rfl
  · split
    · rfl
    · rfl

/-- A job is done as expected where its work is what the protector makes of it. -/
theorem map_holding_idle (hvalid : config.validate = .ok ()) {α : Type} {job : Job}
    {options : Kdf.Options} (hoptions : job.options? config = some options)
    {work : Sampler EnclaveError α} {f : α → Product}
    (hwork : (work >>= fun a => pure (f a)) =
      (job.unpooled suite ⟨config.memoryBudget, config.options⟩).mapError .crypto)
    (closed : Bool) (stream : Bytes) :
    ((idle config closed).holding options work stream).map (Turn.map f) =
      some ⟨idle config closed, job.expected suite config closed stream⟩ := by
  rw [map_holding, holding_idle hvalid, hwork, Job.expected, hoptions]

theorem perform_idle (hvalid : config.validate = .ok ()) (closed : Bool) (job : Job)
    (stream : Bytes) :
    (idle config closed).perform suite job stream =
      some ⟨idle config (closed || job.closes), job.expected suite config closed stream⟩ := by
  cases hcloses : job.closes with
  | true =>
    cases job with
    | close =>
      rw [Bool.or_true]
      rfl
    | _ => cases hcloses
  | false =>
    rw [Bool.or_false]
    cases job with
    | close => cases hcloses
    | unlock record password =>
      apply map_holding_idle hvalid rfl
      rw [Job.unpooled, Sampler.mapError_bind]
      rfl
    | unlockUnless cancelled record password =>
      apply map_holding_idle hvalid rfl
      cases cancelled with
      | true => rfl
      | false =>
        simp only [idle, Job.unpooled, Bool.false_eq_true, if_false, Sampler.mapError_bind]
        cases Protector.unlock suite ⟨config.memoryBudget, config.options⟩ record password with
        | ok key => rfl
        | error error => rfl
    | protect key password =>
      apply map_holding_idle hvalid rfl
      rw [Job.unpooled, Sampler.mapError_bind]
      rfl
    | generate password =>
      apply map_holding_idle hvalid rfl
      rw [Job.unpooled, Sampler.mapError_bind]
      rfl

/-! ## How jobs fail -/

/-- Within the budget, memory is nothing that a protector could miss. -/
theorem failsOnly_unpooled (hvalid : config.validate = .ok ()) {job : Job} {options : Kdf.Options}
    (hoptions : job.options? config = some options)
    (hmemory : options.memory ≤ config.memoryBudget) :
    (job.unpooled suite ⟨config.memoryBudget, config.options⟩).FailsOnly fun error =>
      if job.seals then error = .resource .randomness else error.kind ≠ .resource := by
  obtain ⟨-, -, hgood, hdefault, -⟩ := Config.validate_eq_ok_iff.1 hvalid
  cases job with
  | close => cases hoptions
  | unlock record password =>
    cases hoptions
    refine Sampler.FailsOnly.map (Sampler.failsOnly_ofExcept fun error herror => ?_) _
    exact Protector.kind_ne_resource_of_unlock hmemory herror
  | unlockUnless cancelled record password =>
    cases hoptions
    cases cancelled with
    | true => exact Sampler.failsOnly_pure _
    | false =>
      refine Sampler.FailsOnly.map (Sampler.failsOnly_ofExcept fun error herror => ?_) _
      exact Protector.kind_ne_resource_of_unlock hmemory herror
  | protect key password =>
    exact (Protector.failsOnly_protect suite key password hgood hdefault).map _
  | generate password =>
    exact (Protector.failsOnly_generate suite password hgood hdefault).map _

theorem failsOnly_gated {α : Type} {options : Kdf.Options} {work : Sampler EnclaveError α}
    {known : EnclaveError → Prop}
    (hbudget : config.memoryBudget < options.memory →
      known (.crypto (.resource (.unlocking options.memory config.memoryBudget))))
    (hclosed : known (.crypto (.resource .poolClosed)))
    (hwork : options.memory ≤ config.memoryBudget → work.FailsOnly known) :
    (gated config closed options work).FailsOnly known := by
  unfold gated
  split
  · rename_i hmemory
    exact Sampler.failsOnly_ofExcept fun error herror => Except.error.inj herror ▸ hbudget hmemory
  · rename_i hmemory
    split
    · exact Sampler.failsOnly_ofExcept fun error herror => Except.error.inj herror ▸ hclosed
    · exact hwork (UInt32.not_lt.1 hmemory)

/-- No job meets the limit of the derivation, and what is sealed under the options of the
configuration only lacks random bytes or comes too late. -/
theorem failsOnly_expected (hvalid : config.validate = .ok ()) (closed : Bool) (job : Job) :
    (job.expected suite config closed).FailsOnly fun error =>
      (∀ memory limit, error ≠ .crypto (.resource (.derivation memory limit))) ∧
      (job.seals = true → error = .crypto (.resource .randomness) ∨
        error = .crypto (.resource .poolClosed)) := by
  obtain ⟨-, -, -, hdefault, -⟩ := Config.validate_eq_ok_iff.1 hvalid
  unfold Job.expected
  cases hoptions : job.options? config with
  | none => exact Sampler.failsOnly_pure _
  | some options =>
    refine failsOnly_gated (fun hbudget => ?_) ?_ fun hmemory => ?_
    · refine ⟨by simp, fun hseals => ?_⟩
      -- The configuration is checked for its own options.
      have hown : options = config.options := by
        cases job with
        | protect key password => exact (Option.some.inj hoptions).symm
        | generate password => exact (Option.some.inj hoptions).symm
        | _ => cases hseals
      rw [hown] at hbudget
      exact absurd hbudget (UInt32.not_lt.2 hdefault)
    · exact ⟨by simp, fun _ => .inr rfl⟩
    · refine (failsOnly_unpooled hvalid hoptions hmemory).mapError fun error herror => ?_
      cases hseals : job.seals with
      | true =>
        rw [hseals, if_pos rfl] at herror
        subst herror
        exact ⟨by simp, fun _ => .inl rfl⟩
      | false =>
        rw [hseals, if_neg Bool.false_ne_true] at herror
        refine ⟨?_, fun h => by cases h⟩
        rintro memory limit h
        cases h
        exact herror rfl

/-! ## Jobs in a row -/

/-- A job, the pool that it found and what it came to. -/
structure Entry where
  job : Job
  found : Pool
  outcome : Outcome EnclaveError Product

structure Run where
  entries : List Entry
  /-- The pool after the last job. -/
  pool : Pool

/-- Does jobs one after another; `none` if one of them waits for ever. -/
def serve (suite : Suite) (pool : Pool) : List Job → Bytes → Option Run
  | [], _ => some ⟨[], pool⟩
  | job :: rest, stream => do
    let turn ← pool.perform suite job stream
    let run ← serve suite turn.pool rest turn.outcome.left
    return { run with entries := ⟨job, pool, turn.outcome⟩ :: run.entries }

/-- What jobs in a row come to, told without permits. -/
def expectedAll (suite : Suite) (config : Config) :
    (closed : Bool) → List Job → Bytes → List (Job × Outcome EnclaveError Product)
  | _, [], _ => []
  | closed, job :: rest, stream =>
    let outcome := job.expected suite config closed stream
    (job, outcome) :: expectedAll suite config (closed || job.closes) rest outcome.left

/-- A pool of a configuration, closed or not, with all its permits. -/
def Idle (config : Config) (pool : Pool) : Prop :=
  ∃ closed, pool = idle config closed

/-- What was done, as it was expected. -/
structure Run.AsExpected (suite : Suite) (config : Config) (closed : Bool) (jobs : List Job)
    (stream : Bytes) (run : Run) : Prop where
  entries_eq : run.entries.map (fun entry => (entry.job, entry.outcome)) =
    expectedAll suite config closed jobs stream
  found_idle : ∀ entry ∈ run.entries, Idle config entry.found
  left_idle : Idle config run.pool

theorem serve_idle (suite : Suite) (hvalid : config.validate = .ok ()) (closed : Bool)
    (jobs : List Job) (stream : Bytes) :
    ∃ run, (idle config closed).serve suite jobs stream = some run ∧
      run.AsExpected suite config closed jobs stream := by
  induction jobs generalizing closed stream with
  | nil =>
    refine ⟨_, rfl, ?_⟩
    constructor
    · rfl
    · intro entry hmem
      cases hmem
    · exact ⟨closed, rfl⟩
  | cons job rest ih =>
    obtain ⟨outcome, houtcome⟩ : ∃ outcome, outcome = job.expected suite config closed stream :=
      ⟨_, rfl⟩
    obtain ⟨run, hrun, hexpected⟩ := ih (closed || job.closes) outcome.left
    refine ⟨{ run with entries := ⟨job, idle config closed, outcome⟩ :: run.entries }, ?_, ?_⟩
    · rw [serve, perform_idle hvalid, ← houtcome, Option.bind_eq_bind, Option.bind_some, hrun]
      rfl
    · constructor
      · rw [List.map_cons, hexpected.entries_eq, expectedAll, ← houtcome]
      · intro entry hmem
        rcases List.mem_cons.1 hmem with rfl | hmem
        · exact ⟨closed, rfl⟩
        · exact hexpected.found_idle entry hmem
      · exact hexpected.left_idle

theorem mem_expectedAll {jobs : List Job} {stream : Bytes}
    {entry : Job × Outcome EnclaveError Product}
    (h : entry ∈ expectedAll suite config closed jobs stream) :
    ∃ late before, (closed = true → late = true) ∧
      entry.2 = entry.1.expected suite config late before := by
  induction jobs generalizing closed stream with
  | nil => cases h
  | cons job rest ih =>
    rcases List.mem_cons.1 h with rfl | hrest
    · exact ⟨closed, stream, id, rfl⟩
    · obtain ⟨late, before, hlate, hentry⟩ := ih hrest
      exact ⟨late, before, fun hclosed => hlate (by simp [hclosed]), hentry⟩

/-- Whatever follows the first job that closes the pool finds it closed. -/
theorem mem_drop_expectedAll {before after : List Job} {stream : Bytes}
    {entry : Job × Outcome EnclaveError Product}
    (h : entry ∈ (expectedAll suite config closed (before ++ .close :: after) stream).drop
      (before.length + 1)) :
    ∃ stream, entry.2 = entry.1.expected suite config true stream := by
  induction before generalizing closed stream with
  | nil =>
    obtain ⟨late, stream, hlate, hentry⟩ := mem_expectedAll h
    rw [hlate (by simp [Job.closes])] at hentry
    exact ⟨stream, hentry⟩
  | cons job before ih => exact ih h

theorem result_expected_of_closed {job : Job} {options : Kdf.Options}
    (hoptions : job.options? config = some options) (stream : Bytes) :
    (job.expected suite config true stream).result = .error (.crypto (.resource
      (if config.memoryBudget < options.memory then
        .unlocking options.memory config.memoryBudget
      else .poolClosed))) := by
  simp only [Job.expected, hoptions, gated, if_true]
  split <;> rfl

/-- A pool of a valid configuration does any jobs one after another, without a wait and as
they are expected to be done, and every one of them finds all permits. Once it is closed
it refuses all derivations. Nobody ever sees the limit of the derivation itself, and the
options of the configuration are never what keeps a key from being sealed. -/
theorem serve_expected (suite : Suite) {config : Config} (hvalid : config.validate = .ok ())
    (jobs : List Job) (stream : Bytes) :
    ∃ pool run, create config = .ok pool ∧ pool.serve suite jobs stream = some run ∧
      run.entries.map (fun entry => (entry.job, entry.outcome)) =
        expectedAll suite config false jobs stream ∧
      (∀ found, found = run.pool ∨ (∃ entry ∈ run.entries, found = entry.found) →
        found.workers = config.unlocks.toNat ∧ found.memory = config.memoryBudget.toNat) ∧
      (∀ before after, jobs = before ++ .close :: after →
        ∀ entry ∈ run.entries.drop (before.length + 1), ∀ options,
          entry.job.options? config = some options →
          entry.outcome.result = .error (.crypto (.resource
            (if config.memoryBudget < options.memory then
              .unlocking options.memory config.memoryBudget
            else .poolClosed)))) ∧
      ∀ entry ∈ run.entries, ∀ error, entry.outcome.result = .error error →
        (∀ memory limit, error ≠ .crypto (.resource (.derivation memory limit))) ∧
        (entry.job.seals = true → error = .crypto (.resource .randomness) ∨
          error = .crypto (.resource .poolClosed)) := by
  obtain ⟨run, hrun, hexpected⟩ := serve_idle suite hvalid false jobs stream
  refine ⟨idle config false, run, create_eq_idle hvalid, hrun, hexpected.entries_eq, ?_, ?_, ?_⟩
  · have hidle : ∀ found, Idle config found →
        found.workers = config.unlocks.toNat ∧ found.memory = config.memoryBudget.toNat := by
      rintro found ⟨closed, rfl⟩
      exact ⟨rfl, rfl⟩
    rintro found (rfl | ⟨entry, hmem, rfl⟩)
    · exact hidle _ hexpected.left_idle
    · exact hidle _ (hexpected.found_idle entry hmem)
  · rintro before after rfl entry hmem options hoptions
    have hlate := List.mem_map_of_mem (f := fun entry : Entry => (entry.job, entry.outcome)) hmem
    rw [List.map_drop, hexpected.entries_eq] at hlate
    obtain ⟨stream, hentry⟩ := mem_drop_expectedAll hlate
    rw [show entry.outcome = _ from hentry]
    exact result_expected_of_closed hoptions stream
  · intro entry hmem error herror
    have hall := List.mem_map_of_mem (f := fun entry : Entry => (entry.job, entry.outcome)) hmem
    rw [hexpected.entries_eq] at hall
    obtain ⟨late, stream, -, hentry⟩ := mem_expectedAll hall
    rw [show entry.outcome = _ from hentry] at herror
    exact failsOnly_expected hvalid late entry.job herror

/-- A configuration for one derivation at a time, of the least cost. -/
def narrow : Config where
  options := ⟨.hybrid, 8, 1, 1, 19⟩
  unlocks := 1
  memoryBudget := 8
  forwarding := []

/-- A record that is not locked, of some memory cost. -/
def unlockedRecord (memory : UInt32) : KeyRecord :=
  ⟨none, .unlocked, ⟨.hybrid, memory, 1, 1, 19⟩, ⟨.zero⟩, ⟨.zero⟩, []⟩

theorem serve_expected_narrow :
    let jobs : List Job := [.unlockUnless true (unlockedRecord 9) "",
      .unlockUnless true (unlockedRecord 8) "", .unlock (unlockedRecord 8) "",
      .protect ⟨.zero⟩ "one", .protect ⟨.zero⟩ "two", .close, .unlock (unlockedRecord 9) "",
      .generate "three"]
    let refusal := Except.error (EnclaveError.crypto (.resource (.unlocking 9 8)))
    narrow.validate = .ok () ∧
      ∃ pool run, create narrow = .ok pool ∧
        pool.serve .standard jobs (List.replicate 60 7) = some run ∧
        run.entries.map (fun entry => entry.outcome.result.map fun _ => ()) =
          [refusal, .ok (), .error (.crypto .notLocked), .ok (),
            .error (.crypto (.resource .randomness)), .ok (), refusal,
            .error (.crypto (.resource .poolClosed))] ∧
        run.pool.workers = 1 ∧ run.pool.memory = 8 := by
  intro jobs refusal
  have hvalid : narrow.validate = .ok () := by decide +kernel
  obtain ⟨pool, run, hcreate, hrun, hentries, hpermits, -⟩ :=
    serve_expected .standard hvalid jobs (List.replicate 60 7)
  obtain ⟨hworkers, hmemory⟩ := hpermits run.pool (.inl rfl)
  refine ⟨hvalid, pool, run, hcreate, hrun, ?_, hworkers, hmemory⟩
  have hresults := congrArg (List.map fun entry => entry.2.result.map fun _ => ()) hentries
  rw [List.map_map] at hresults
  exact hresults.trans (by decide +kernel)

end Pool

end Envelope
