import Envelope.Enclave.Pool

/-!
# Pools at rest

A pool is at rest when all its permits are free. Then nobody waits: what is not
refused has its permits at once, and leaves the pool as it was.
-/

namespace Envelope

/-- A budget is a word of 32 bits, and a pool can count as many permits. -/
theorem Config.memoryBudget_le_maxPermits (config : Config) :
    config.memoryBudget.toUInt64 ≤ maxPermits := by
  have hword := config.memoryBudget.toNat_lt
  have hmax : maxPermits.toNat = 2305843009213693951 := rfl
  rw [UInt64.le_iff_toNat_le, UInt32.toNat_toUInt64]
  omega

/-- What a configuration is checked for. -/
theorem Config.validate_eq_ok_iff {config : Config} :
    config.validate = .ok () ↔
      config.unlocks ≠ 0 ∧ config.unlocks ≤ maxPermits ∧ config.options.validate = .ok () ∧
        config.options.memory ≤ config.memoryBudget ∧ .zero ∉ config.forwarding := by
  unfold validate fault?
  by_cases hfew : config.unlocks = 0
  · simp [hfew]
  by_cases hmany : maxPermits < config.unlocks
  · simp [hfew, hmany, UInt64.not_le.2 hmany]
  have hwide : ¬maxPermits < config.memoryBudget.toUInt64 :=
    UInt64.not_lt.2 config.memoryBudget_le_maxPermits
  cases hvalid : config.options.validate with
  | error error => simp [hfew, hmany, hwide]
  | ok =>
    by_cases hmemory : config.memoryBudget < config.options.memory
    · simp [hfew, hmany, hwide, hmemory, UInt32.not_le.2 hmemory]
    by_cases hzero : .zero ∈ config.forwarding
    · simp [hfew, hmany, hwide, hmemory, hzero]
    · simp [hfew, hmany, hwide, hmemory, hzero, UInt64.not_lt.1 hmany, UInt32.not_lt.1 hmemory]

namespace Pool

variable {config : Config} {pool : Pool} {options : Kdf.Options} {error : EnclaveError}

theorem create_eq_ok_iff : create config = .ok pool ↔
    config.validate = .ok () ∧ pool = {
      protector := ⟨config.memoryBudget, config.options⟩
      maxWorkers := config.unlocks.toNat
      budget := config.memoryBudget
      workers := config.unlocks.toNat
      memory := config.memoryBudget.toNat
      closed := false } := by
  unfold create
  cases config.validate with
  | error error => simp [bind, Except.bind]
  | ok => simp [bind, Except.bind, pure, Except.pure, eq_comm]

/-- All permits are free, a worker's among them. -/
structure AtRest (pool : Pool) : Prop where
  workers_pos : 0 < pool.workers
  memory_eq : pool.memory = pool.budget.toNat

theorem atRest_of_create (h : create config = .ok pool) : pool.AtRest := by
  obtain ⟨hvalid, rfl⟩ := create_eq_ok_iff.1 h
  obtain ⟨hunlocks, -⟩ := Config.validate_eq_ok_iff.1 hvalid
  refine ⟨Nat.pos_of_ne_zero ?_, rfl⟩
  exact fun hzero => hunlocks (UInt64.toNat_inj.1 hzero)

theorem AtRest.close (h : pool.AtRest) : pool.close.AtRest :=
  ⟨h.workers_pos, h.memory_eq⟩

/-! ## Refusals -/

theorem refusal?_eq_none_iff :
    pool.refusal? options = none ↔ options.memory ≤ pool.budget ∧ pool.closed = false := by
  unfold refusal?
  split
  · rename_i hbudget
    simp [UInt32.not_le.2 hbudget]
  · rename_i hbudget
    simp [UInt32.not_lt.1 hbudget]

/-- A refusal is an error of the operations below. -/
theorem eq_crypto_of_refusal? (h : pool.refusal? options = some error) :
    ∃ fault, error = .crypto fault := by
  unfold refusal? at h
  split at h
  · cases h
    exact ⟨_, rfl⟩
  · split at h
    · cases h
      exact ⟨_, rfl⟩
    · cases h

/-! ## Requests -/

/-- What asking for a worker permit can come to. -/
theorem engage_cases (pool : Pool) (options : Kdf.Options) :
    (∃ error, pool.refusal? options = some error ∧ pool.engage options = .refused error) ∨
    (pool.workers = 0 ∧ pool.engage options = .waits) ∨
    (pool.refusal? options = none ∧ 0 < pool.workers ∧
      pool.engage options = .granted { pool with workers := pool.workers - 1 }) := by
  unfold engage
  cases pool.refusal? options with
  | some error => exact .inl ⟨error, rfl, rfl⟩
  | none =>
    by_cases hworkers : pool.workers = 0
    · exact .inr (.inl ⟨hworkers, if_pos hworkers⟩)
    · exact .inr (.inr ⟨rfl, Nat.pos_of_ne_zero hworkers, if_neg hworkers⟩)

/-- What asking for memory can come to. -/
theorem allot_cases (pool : Pool) (options : Kdf.Options) :
    (pool.closed = true ∧ pool.allot options = .refused (.crypto (.resource .poolClosed))) ∨
    (pool.memory < options.memory.toNat ∧ pool.allot options = .waits) ∨
    (pool.closed = false ∧ options.memory.toNat ≤ pool.memory ∧
      pool.allot options =
        .granted { pool with memory := pool.memory - options.memory.toNat }) := by
  unfold allot
  cases pool.closed with
  | true => exact .inl ⟨rfl, rfl⟩
  | false =>
    by_cases hmemory : pool.memory < options.memory.toNat
    · exact .inr (.inl ⟨hmemory, if_pos hmemory⟩)
    · exact .inr (.inr ⟨rfl, Nat.not_lt.1 hmemory, if_neg hmemory⟩)

/-! ## Work at a pool at rest -/

/-- What is not refused gets its permits at once and gives them all back. -/
theorem AtRest.request_eq (h : pool.AtRest) (hrefusal : pool.refusal? options = none) :
    ∃ rest, pool.request options = .granted rest ∧ rest.release options = pool := by
  obtain ⟨hbudget, hclosed⟩ := refusal?_eq_none_iff.1 hrefusal
  have hworkers := h.workers_pos
  have hmemory : options.memory.toNat ≤ pool.memory :=
    h.memory_eq ▸ UInt32.le_iff_toNat_le.1 hbudget
  have hengage : pool.engage options = .granted { pool with workers := pool.workers - 1 } := by
    simp [engage, hrefusal, Nat.ne_of_gt hworkers]
  refine ⟨{ pool with
    workers := pool.workers - 1
    memory := pool.memory - options.memory.toNat }, ?_, ?_⟩
  · simp [request, hengage, allot, hclosed, Nat.not_lt.2 hmemory]
  · simp [release, dismiss, Nat.sub_add_cancel hworkers, Nat.sub_add_cancel hmemory]

theorem AtRest.holding_eq (h : pool.AtRest) {α : Type} (work : Sampler EnclaveError α)
    (stream : Bytes) :
    pool.holding options work stream =
      some ⟨pool, (pool.refusal? options).elim work Sampler.fail stream⟩ := by
  cases hrefusal : pool.refusal? options with
  | some error => simp [holding, request, engage, hrefusal]
  | none =>
    obtain ⟨rest, hrequest, hrelease⟩ := h.request_eq hrefusal
    simp [holding, hrequest, hrelease]

/-- What unlocking a record on its own comes to. -/
def answer (suite : Suite) (pool : Pool) (record : KeyRecord) (password : String) :
    Except EnclaveError PrivateKey :=
  (pool.refusal? record.options).elim
    ((pool.protector.unlock suite record password).mapError .crypto) .error

variable {suite : Suite} {record : KeyRecord} {password : String}

theorem AtRest.unlock_eq (h : pool.AtRest) (stream : Bytes) :
    pool.unlock suite record password stream =
      some ⟨pool, pool.answer suite record password, stream, []⟩ := by
  rw [unlock, h.holding_eq, answer]
  cases pool.refusal? record.options with
  | some error => rfl
  | none => rfl

theorem answer_of_refusal? (h : pool.refusal? record.options = some error) :
    pool.answer suite record password = .error error := by
  rw [answer, h]
  rfl

theorem answer_of_not_refused (h : pool.refusal? record.options = none) :
    pool.answer suite record password =
      (pool.protector.unlock suite record password).mapError .crypto := by
  rw [answer, h]
  rfl

theorem eq_crypto_of_answer (h : pool.answer suite record password = .error error) :
    ∃ fault, error = .crypto fault := by
  cases hrefusal : pool.refusal? record.options with
  | some refusal =>
    rw [answer_of_refusal? hrefusal] at h
    cases h
    exact eq_crypto_of_refusal? hrefusal
  | none =>
    rw [answer_of_not_refused hrefusal] at h
    cases hunlock : pool.protector.unlock suite record password with
    | error fault =>
      rw [hunlock] at h
      cases h
      exact ⟨fault, rfl⟩
    | ok key =>
      rw [hunlock] at h
      cases h

end Pool

end Envelope
