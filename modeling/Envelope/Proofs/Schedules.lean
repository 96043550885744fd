import Envelope.Enclave.Loading
import Envelope.Lists
import Envelope.Proofs.Permits
import Mathlib.Algebra.BigOperators.Group.List.Basic
import Mathlib.Algebra.GroupWithZero.Nat

/-!
# Every order of loading

`Step` says once what a task can do and under which conditions. From it follows
what every state of every schedule keeps: no permit is lost, a task that was
cancelled stands beside one that failed, and every other result is that of the
record on its own. Each step brings its task nearer to being joined, and while
some task is not joined there is one that can go on. So no schedule goes on for
ever or gets stuck.
-/

namespace Envelope.Loading

namespace Phase

/-- The worker permits that a task holds. -/
def workers : Phase → Nat
  | .engaged | .granted | .unlocking => 1
  | _ => 0

/-- The memory permits that a task holds, given those that it asks for. -/
def memory (cost : Nat) : Phase → Nat
  | .granted | .unlocking => cost
  | _ => 0

/-- The steps that a task has left, at most. -/
def rank : Phase → Nat
  | .queued => 6
  | .engaged => 5
  | .granted => 4
  | .unlocking => 3
  | .finished _ => 2
  | .announced _ => 1
  | .joined _ => 0

/-- Whether the task has failed and cancelled the others. -/
def failed : Phase → Bool
  | .announced (.error _) | .joined (.error _) => true
  | _ => false

end Phase

variable {suite : Suite} {fresh pool rest : Pool} {cancelled : Bool} {record : KeyRecord}
  {password : String} {phase next : Phase} {entries : List (KeyRecord × String)}
  {state after final : State} {schedule : List Nat}

/-- What a task can do: its phase before, the pool and its phase afterwards. -/
inductive Step (suite : Suite) (pool : Pool) (cancelled : Bool) (record : KeyRecord)
    (password : String) : Phase → Pool → Phase → Prop
  | refused {error} (h : pool.refusal? record.options = some error) :
      Step suite pool cancelled record password .queued pool (.finished (.error error))
  | engaged (h : pool.refusal? record.options = none) (hworkers : 0 < pool.workers) :
      Step suite pool cancelled record password .queued
        { pool with workers := pool.workers - 1 } .engaged
  | turnedAway (h : pool.closed = true) :
      Step suite pool cancelled record password .engaged pool.dismiss
        (.finished (.error (.crypto (.resource .poolClosed))))
  | granted (h : pool.closed = false) (hmemory : record.options.memory.toNat ≤ pool.memory) :
      Step suite pool cancelled record password .engaged
        { pool with memory := pool.memory - record.options.memory.toNat } .granted
  | cancelled (h : cancelled = true) :
      Step suite pool cancelled record password .granted (pool.release record.options)
        (.finished (.ok none))
  | kept (h : cancelled = false) :
      Step suite pool cancelled record password .granted pool .unlocking
  | unlocked :
      Step suite pool cancelled record password .unlocking (pool.release record.options)
        (.finished (((pool.protector.unlock suite record password).map some).mapError .crypto))
  | announced {result} :
      Step suite pool cancelled record password (.finished result) pool (.announced result)
  | joined {result} :
      Step suite pool cancelled record password (.announced result) pool (.joined result)

theorem step_of_step? (h : Task.step? suite pool cancelled ⟨record, password, phase⟩ =
    some (rest, next)) : Step suite pool cancelled record password phase rest next := by
  cases phase with
  | queued =>
    rcases pool.engage_cases record.options with
      ⟨error, hrefusal, hengage⟩ | ⟨-, hengage⟩ | ⟨hrefusal, hworkers, hengage⟩
    · simp only [Task.step?, hengage] at h
      cases h
      exact .refused hrefusal
    · simp [Task.step?, hengage] at h
    · simp only [Task.step?, hengage] at h
      cases h
      exact .engaged hrefusal hworkers
  | engaged =>
    rcases pool.allot_cases record.options with
      ⟨hclosed, hallot⟩ | ⟨-, hallot⟩ | ⟨hclosed, hmemory, hallot⟩
    · simp only [Task.step?, hallot] at h
      cases h
      exact .turnedAway hclosed
    · simp [Task.step?, hallot] at h
    · simp only [Task.step?, hallot] at h
      cases h
      exact .granted hclosed hmemory
  | granted =>
    cases cancelled with
    | true =>
      cases h
      exact .cancelled rfl
    | false =>
      cases h
      exact .kept rfl
  | unlocking =>
    cases h
    exact .unlocked
  | finished result =>
    cases h
    exact .announced
  | announced result =>
    cases h
    exact .joined
  | joined result => cases h

namespace Step

variable (h : Step suite pool cancelled record password phase rest next)
include h

theorem rank_lt : next.rank < phase.rank := by
  cases h <;> simp [Phase.rank]

/-- Only the numbers of free permits change. -/
theorem pool_eq : rest = { pool with workers := rest.workers, memory := rest.memory } := by
  cases h <;> rfl

theorem workers_eq : rest.workers + next.workers = pool.workers + phase.workers := by
  cases h with
  | engaged _ hworkers => exact Nat.sub_add_cancel hworkers
  | _ => rfl

theorem memory_eq :
    rest.memory + next.memory record.options.memory.toNat =
      pool.memory + phase.memory record.options.memory.toNat := by
  cases h with
  | granted _ hmemory => exact Nat.sub_add_cancel hmemory
  | _ => rfl

/-- Who failed cancels the others, and nobody else does. -/
theorem failed_eq : next.failed = (phase.failed || next.cancels) := by
  cases h with
  | @announced result => cases result <;> rfl
  | @joined result => cases result <;> rfl
  | _ => rfl

/-- A task that can still go on has not been joined with a failure. -/
theorem failure?_eq : phase.failure? = none := by
  cases h <;> rfl

end Step

/-! ## What every state keeps -/

/-- What is known of a task by its phase, if the pool is `fresh` at first. -/
def Task.Sound (suite : Suite) (fresh : Pool) (cancelled : Bool) (task : Task) : Prop :=
  match task.phase with
  | .queued => True
  | .engaged | .granted | .unlocking => fresh.refusal? task.record.options = none
  | .finished result | .announced result | .joined result =>
    result = (fresh.answer suite task.record task.password).map some ∨
      (result = .ok none ∧ cancelled = true)

namespace State

/-- The worker permits that are held. -/
def workers (state : State) : Nat :=
  (state.tasks.map fun task => task.phase.workers).sum

/-- The memory permits that are held. -/
def memory (state : State) : Nat :=
  (state.tasks.map fun task => task.phase.memory task.record.options.memory.toNat).sum

/-- The steps that are left, at most. -/
def rank (state : State) : Nat :=
  (state.tasks.map fun task => task.phase.rank).sum

structure Sound (suite : Suite) (fresh : Pool) (entries : List (KeyRecord × String))
    (state : State) : Prop where
  entries_eq : (state.tasks.map fun task => (task.record, task.password)) = entries
  pool_eq : state.pool = { fresh with workers := state.pool.workers, memory := state.pool.memory }
  workers_eq : state.pool.workers + state.workers = fresh.workers
  memory_eq : state.pool.memory + state.memory = fresh.memory
  tasks : ∀ task ∈ state.tasks, task.Sound suite fresh state.cancelled
  /-- Nobody is cancelled unless a task failed. -/
  cancelled_eq : state.cancelled = state.tasks.any fun task => task.phase.failed
  failure_none : state.failure = none → ∀ task ∈ state.tasks, task.phase.failure? = none
  failure_some : ∀ error, state.failure = some error →
    ∃ task ∈ state.tasks, task.phase.failure? = some error

/-- A step changes one task, and what is shared. -/
theorem step?_cases {i : Nat} (h : state.step? suite i = some after) :
    ∃ front back record password phase rest next,
      state.tasks = front ++ ⟨record, password, phase⟩ :: back ∧
      Step suite state.pool state.cancelled record password phase rest next ∧
      after = {
        pool := rest
        cancelled := state.cancelled || next.cancels
        tasks := front ++ ⟨record, password, next⟩ :: back
        failure := state.failure.or next.failure? } := by
  obtain ⟨⟨record, password, phase⟩, htask, h⟩ := Option.bind_eq_some_iff.1 h
  obtain ⟨⟨rest, next⟩, hstep, h⟩ := Option.bind_eq_some_iff.1 h
  cases h
  obtain ⟨hi, htask⟩ := List.getElem?_eq_some_iff.1 htask
  refine ⟨state.tasks.take i, state.tasks.drop (i + 1), record, password, phase, rest, next, ?_,
    step_of_step? hstep, ?_⟩
  · rw [← htask, ← List.drop_eq_getElem_cons hi, List.take_append_drop]
  · rw [List.set_eq_take_append_cons_drop, if_pos hi]

theorem rank_lt_of_step? {i : Nat} (h : state.step? suite i = some after) :
    after.rank < state.rank := by
  obtain ⟨front, back, record, password, phase, rest, next, htasks, hstep, rfl⟩ := step?_cases h
  have hrank := hstep.rank_lt
  simp only [rank, htasks, List.map_append, List.map_cons, List.sum_append, List.sum_cons]
  omega

end State

theorem Task.Sound.mono {task : Task} {more : Bool} (h : task.Sound suite fresh cancelled)
    (hmore : cancelled = true → more = true) : task.Sound suite fresh more := by
  unfold Task.Sound at h ⊢
  split at h
  · trivial
  · exact h
  · exact h
  · exact h
  all_goals exact h.imp_right (And.imp_right hmore)

/-- What a task comes to is what the record comes to on its own, unless the task
was cancelled. -/
theorem Step.sound (h : Step suite pool cancelled record password phase rest next)
    (hpool : pool = { fresh with workers := pool.workers, memory := pool.memory })
    (hsound : Task.Sound suite fresh cancelled ⟨record, password, phase⟩) :
    Task.Sound suite fresh cancelled ⟨record, password, next⟩ := by
  have hrefusal : ∀ options, pool.refusal? options = fresh.refusal? options := by
    intro options
    rw [hpool]
    rfl
  have hclosed : pool.closed = fresh.closed := by rw [hpool]
  have hprotector : pool.protector = fresh.protector := by rw [hpool]
  cases h with
  | @refused error h =>
    rw [hrefusal] at h
    left
    rw [Pool.answer_of_refusal? h]
    rfl
  | engaged h hworkers =>
    rw [hrefusal] at h
    exact h
  | turnedAway h =>
    have hopen := (Pool.refusal?_eq_none_iff.1 hsound).2
    rw [hclosed, hopen] at h
    cases h
  | granted h hmemory => exact hsound
  | cancelled h => exact .inr ⟨rfl, h⟩
  | kept h => exact hsound
  | unlocked =>
    left
    rw [Pool.answer_of_not_refused hsound, hprotector]
    cases fresh.protector.unlock suite record password <;> rfl
  | announced => exact hsound
  | joined => exact hsound

namespace State

theorem workers_eq_zero (h : ∀ task ∈ state.tasks, task.phase.workers = 0) : state.workers = 0 :=
  List.sum_eq_zero (List.forall_mem_map.2 h)

theorem memory_eq_zero
    (h : ∀ task ∈ state.tasks, task.phase.memory task.record.options.memory.toNat = 0) :
    state.memory = 0 :=
  List.sum_eq_zero (List.forall_mem_map.2 h)

theorem phase_start {task : Task} (h : task ∈ (start pool entries).tasks) :
    task.phase = .queued := by
  obtain ⟨entry, -, rfl⟩ := List.mem_map.1 h
  rfl

theorem rank_start (pool : Pool) (entries : List (KeyRecord × String)) :
    (start pool entries).rank = 6 * entries.length := by
  induction entries with
  | nil => rfl
  | cons entry rest ih =>
    rw [rank, start, List.map_cons, List.map_cons, List.sum_cons, List.length_cons,
      Nat.mul_add, Nat.add_comm]
    exact congrArg (· + 6) ih

theorem sound_start (suite : Suite) (fresh : Pool) (entries : List (KeyRecord × String)) :
    Sound suite fresh entries (start fresh entries) where
  entries_eq := by simp [start, Function.comp_def]
  pool_eq := rfl
  workers_eq := by
    rw [workers_eq_zero fun task htask => by rw [phase_start htask]; rfl, Nat.add_zero]
    rfl
  memory_eq := by
    rw [memory_eq_zero fun task htask => by rw [phase_start htask]; rfl, Nat.add_zero]
    rfl
  tasks task htask := by
    rw [Task.Sound, phase_start htask]
    trivial
  cancelled_eq := by
    symm
    apply List.any_eq_false.2
    intro task htask
    rw [phase_start htask]
    simp [Phase.failed]
  failure_none _ task htask := by
    rw [phase_start htask]
    rfl
  failure_some error herror := by cases herror

theorem Sound.step (h : Sound suite fresh entries state) {i : Nat}
    (hstep : state.step? suite i = some after) : Sound suite fresh entries after := by
  obtain ⟨front, back, record, password, phase, rest, next, htasks, hmove, rfl⟩ := step?_cases hstep
  have hmore : state.cancelled = true → (state.cancelled || next.cancels) = true := by
    intro hcancelled
    rw [hcancelled, Bool.true_or]
  have hold : ∀ task ∈ front ++ ⟨record, password, next⟩ :: back,
      task = ⟨record, password, next⟩ ∨ task ∈ state.tasks := by
    rw [htasks]
    exact fun task => List.eq_or_mem_append_cons
  constructor
  · have hentries := h.entries_eq
    rw [htasks] at hentries
    simpa using hentries
  · rw [hmove.pool_eq, h.pool_eq]
  · have hworkers := h.workers_eq
    have hshift := hmove.workers_eq
    simp only [workers, htasks, List.map_append, List.map_cons, List.sum_append,
      List.sum_cons] at hworkers ⊢
    omega
  · have hmemory := h.memory_eq
    have hshift := hmove.memory_eq
    simp only [memory, htasks, List.map_append, List.map_cons, List.sum_append,
      List.sum_cons] at hmemory ⊢
    omega
  · intro task hmem
    rcases hold task hmem with rfl | hmem
    · have htask : Task.Sound suite fresh state.cancelled ⟨record, password, phase⟩ :=
        h.tasks _ (by simp [htasks])
      exact (hmove.sound h.pool_eq htask).mono hmore
    · exact (h.tasks task hmem).mono hmore
  · have hcancelled := h.cancelled_eq
    simp only [htasks, List.any_append, List.any_cons] at hcancelled ⊢
    rw [hcancelled, hmove.failed_eq]
    simp only [Bool.or_assoc, Bool.or_left_comm, Bool.or_comm]
  · intro hnone task hmem
    obtain ⟨hbefore, hnext⟩ := Option.or_eq_none_iff.1 hnone
    rcases hold task hmem with rfl | hmem
    · exact hnext
    · exact h.failure_none hbefore task hmem
  · intro error hsome
    rcases Option.or_eq_some_iff.1 hsome with hbefore | ⟨-, hnext⟩
    · obtain ⟨task, hmem, herror⟩ := h.failure_some error hbefore
      rw [htasks] at hmem
      rcases List.eq_or_mem_append_cons hmem with rfl | hmem
      · rw [hmove.failure?_eq] at herror
        cases herror
      · exact ⟨task, hmem, herror⟩
    · exact ⟨_, List.mem_append_right _ List.mem_cons_self, hnext⟩

/-- A schedule is a run of sound states, and each of its turns uses up a step. -/
theorem Sound.run (h : Sound suite fresh entries state)
    (hrun : state.run suite schedule = some final) :
    Sound suite fresh entries final ∧ schedule.length + final.rank ≤ state.rank := by
  induction schedule generalizing state with
  | nil =>
    cases hrun
    exact ⟨h, by simp⟩
  | cons i rest ih =>
    obtain ⟨after, hstep, hrest⟩ := Option.bind_eq_some_iff.1 hrun
    obtain ⟨hfinal, hlength⟩ := ih (h.step hstep) hrest
    have hrank := rank_lt_of_step? hstep
    refine ⟨hfinal, ?_⟩
    rw [List.length_cons]
    omega

end State

/-! ## Nobody waits for ever -/

/-- Who cannot go on was joined, or waits for a worker or for memory. -/
theorem Task.waits_of_step?_eq_none {task : Task} (h : task.step? suite pool cancelled = none) :
    (∃ result, task.phase = .joined result) ∨
      (task.phase = .queued ∧ pool.workers = 0) ∨
      (task.phase = .engaged ∧ pool.memory < task.record.options.memory.toNat) := by
  obtain ⟨record, password, phase⟩ := task
  cases phase with
  | queued =>
    rcases pool.engage_cases record.options with
      ⟨error, -, hengage⟩ | ⟨hworkers, -⟩ | ⟨-, -, hengage⟩
    · simp [step?, hengage] at h
    · exact .inr (.inl ⟨rfl, hworkers⟩)
    · simp [step?, hengage] at h
  | engaged =>
    rcases pool.allot_cases record.options with ⟨-, hallot⟩ | ⟨hmemory, -⟩ | ⟨-, -, hallot⟩
    · simp [step?, hallot] at h
    · exact .inr (.inr ⟨rfl, hmemory⟩)
    · simp [step?, hallot] at h
  | granted => cases cancelled <;> cases h
  | unlocking => cases h
  | finished result => cases h
  | announced result => cases h
  | joined result => exact .inl ⟨result, rfl⟩

theorem Task.pace?_eq_none_iff {task : Task} :
    task.pace? pool = none ↔ task.step? suite pool cancelled = none := by
  obtain ⟨record, password, phase⟩ := task
  cases phase with
  | queued => cases hengage : pool.engage record.options <;> simp [pace?, step?, hengage]
  | engaged => cases hallot : pool.allot record.options <;> simp [pace?, step?, hallot]
  | granted => cases cancelled <;> simp [pace?, step?]
  | unlocking => simp only [pace?, step?]; split <;> simp
  | finished result => simp [pace?, step?]
  | announced result => simp [pace?, step?]
  | joined result => simp [pace?, step?]

namespace State

theorem done_iff :
    state.done = true ↔ ∀ task ∈ state.tasks, ∃ result, task.phase = .joined result := by
  simp only [done, List.all_eq_true]
  constructor
  · intro h task hmem
    have hjoined := h task hmem
    split at hjoined
    · rename_i result hphase
      exact ⟨result, hphase⟩
    · cases hjoined
  · intro h task hmem
    obtain ⟨result, hphase⟩ := h task hmem
    rw [hphase]

/-- Where no task can go on, all are joined. Who waits for memory waits for one
who has it and can go on; and without anybody who has memory or waits for it,
there is a free worker. -/
theorem Sound.done_of_stuck (h : Sound suite fresh entries state) (hrest : fresh.AtRest)
    (hstuck : ∀ task ∈ state.tasks, task.step? suite state.pool state.cancelled = none) :
    state.done = true := by
  have hwaits := fun task hmem => Task.waits_of_step?_eq_none (hstuck task hmem)
  have hmemory : state.memory = 0 := by
    apply memory_eq_zero
    intro task hmem
    rcases hwaits task hmem with ⟨result, hphase⟩ | ⟨hphase, -⟩ | ⟨hphase, -⟩ <;>
      simp [hphase, Phase.memory]
  have hfree : state.pool.memory = fresh.budget.toNat := by
    rw [← hrest.memory_eq, ← h.memory_eq, hmemory, Nat.add_zero]
  have hqueued : ∀ task ∈ state.tasks, (∃ result, task.phase = .joined result) ∨
      (task.phase = .queued ∧ state.pool.workers = 0) := by
    intro task hmem
    rcases hwaits task hmem with hjoined | hqueued | ⟨hphase, hshort⟩
    · exact .inl hjoined
    · exact .inr hqueued
    · have hsound := h.tasks task hmem
      simp only [Task.Sound, hphase] at hsound
      have hbudget := UInt32.le_iff_toNat_le.1 (Pool.refusal?_eq_none_iff.1 hsound).1
      omega
  have hworkers : state.workers = 0 := by
    apply workers_eq_zero
    intro task hmem
    rcases hqueued task hmem with ⟨result, hphase⟩ | ⟨hphase, -⟩ <;> simp [hphase, Phase.workers]
  have hworker : 0 < state.pool.workers := by
    have hsum := h.workers_eq
    rw [hworkers, Nat.add_zero] at hsum
    rw [hsum]
    exact hrest.workers_pos
  apply done_iff.2
  intro task hmem
  rcases hqueued task hmem with hjoined | ⟨-, hnone⟩
  · exact hjoined
  · exact absurd hnone (Nat.ne_of_gt hworker)

theorem exists_step?_of_task {i : Nat} {task : Task} (htask : state.tasks[i]? = some task)
    (h : task.step? suite state.pool state.cancelled ≠ none) :
    ∃ after, state.step? suite i = some after := by
  obtain ⟨⟨rest, next⟩, hstep⟩ := Option.ne_none_iff_exists'.1 h
  simp [step?, htask, hstep]

theorem Sound.exists_step? (h : Sound suite fresh entries state) (hrest : fresh.AtRest)
    (hdone : state.done = false) : ∃ i after, state.step? suite i = some after := by
  apply Classical.byContradiction
  intro hnone
  have hstuck : state.done = true := by
    apply h.done_of_stuck hrest
    intro task hmem
    obtain ⟨i, htask⟩ := List.mem_iff_getElem?.1 hmem
    apply Classical.byContradiction
    exact fun hstep => hnone ⟨i, exists_step?_of_task htask hstep⟩
  rw [hdone] at hstuck
  cases hstuck

/-! ## Settling -/

/-- Of the tasks that can go on one is found. -/
theorem next?_eq_none (h : state.next? = none) :
    ∀ task ∈ state.tasks, task.pace? state.pool = none := by
  intro task hmem
  apply Option.eq_none_iff_forall_ne_some.2
  intro pace hpace
  have hall : pace ∈ [Pace.instant, .refusal, .derivation] := by cases pace <;> decide
  have hfind := List.findIdx?_eq_none_iff.1 (List.findSome?_eq_none_iff.1 h pace hall) task hmem
  simp [hpace] at hfind

theorem next?_eq_some {i : Nat} (h : state.next? = some i) :
    ∃ after, state.step? suite i = some after := by
  obtain ⟨pace, -, hfind⟩ := List.exists_of_findSome?_eq_some h
  obtain ⟨hi, hpace, -⟩ := List.findIdx?_eq_some_iff_getElem.1 hfind
  apply exists_step?_of_task (List.getElem?_eq_getElem hi)
  intro hnone
  rw [Task.pace?_eq_none_iff.2 hnone] at hpace
  cases hpace

/-- Settling joins all tasks. -/
theorem Sound.done_settle (h : Sound suite fresh entries state) (hrest : fresh.AtRest)
    {steps : Nat} (hsteps : state.rank ≤ steps) : (state.settle suite steps).done = true := by
  induction steps generalizing state with
  | zero =>
    unfold settle
    cases hdone : state.done with
    | true => rfl
    | false =>
      obtain ⟨i, after, hstep⟩ := h.exists_step? hrest hdone
      have hrank := rank_lt_of_step? hstep
      omega
  | succ steps ih =>
    unfold settle
    split
    · rename_i hnone
      have hnext : state.next? = none := by
        cases hnext : state.next? with
        | none => rfl
        | some i =>
          obtain ⟨after, hstep⟩ : ∃ after, state.step? suite i = some after := next?_eq_some hnext
          simp [hnext, hstep] at hnone
      apply h.done_of_stuck hrest
      intro task hmem
      exact Task.pace?_eq_none_iff.1 (next?_eq_none hnext task hmem)
    · rename_i after hsome
      obtain ⟨i, -, hstep⟩ := Option.bind_eq_some_iff.1 hsome
      have hrank := rank_lt_of_step? hstep
      exact ih (h.step hstep) (by omega)

end State

end Envelope.Loading
