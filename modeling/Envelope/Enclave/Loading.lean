import Envelope.Enclave.KeyRing
import Envelope.Enclave.Pool

/-!
# Loading a key ring

All records are unlocked at the same time, each by a task of its own. A task
asks for a worker permit and then for memory, looks whether loading was
cancelled, opens its record, cancels the others if that failed, and is joined.
Tasks take these steps one at a time in any order; a schedule lists whose turn
it is. Loading itself lets the task go on whose next step is over first: a key
derivation takes longer than all else.
-/

namespace Envelope

namespace Loading

/-- How far a task has come. -/
inductive Phase
  | queued
  /-- Has a worker permit. -/
  | engaged
  /-- Has all its permits. -/
  | granted
  /-- Was not cancelled. -/
  | unlocking
  /-- Has given its permits back. -/
  | finished (result : Except EnclaveError (Option PrivateKey))
  /-- Has cancelled the others if it failed. -/
  | announced (result : Except EnclaveError (Option PrivateKey))
  | joined (result : Except EnclaveError (Option PrivateKey))

namespace Phase

/-- Whether a task cancels the others when it comes into the phase. -/
def cancels : Phase → Bool
  | .announced (.error _) => true
  | _ => false

/-- The failure that is joined when a task comes into the phase. -/
def failure? : Phase → Option EnclaveError
  | .joined (.error error) => some error
  | _ => none

end Phase

/-- The unlocking of one record. -/
structure Task where
  record : KeyRecord
  password : String
  phase : Phase

/-- All tasks, and what they share. -/
structure State where
  pool : Pool
  cancelled : Bool
  tasks : List Task
  /-- The failure that was joined first. -/
  failure : Option EnclaveError

/-- The state before the first step. -/
def start (pool : Pool) (entries : List (KeyRecord × String)) : State where
  pool := pool
  cancelled := false
  tasks := entries.map fun (record, password) => ⟨record, password, .queued⟩
  failure := none

variable (suite : Suite)

/-- The next step of a task: the pool and the phase of the task afterwards;
`none` if the task waits for permits or was joined. -/
def Task.step? (pool : Pool) (cancelled : Bool) (task : Task) : Option (Pool × Phase) :=
  match task.phase with
  | .queued =>
    match pool.engage task.record.options with
    | .refused error => some (pool, .finished (.error error))
    | .waits => none
    | .granted rest => some (rest, .engaged)
  | .engaged =>
    match pool.allot task.record.options with
    | .refused error => some (pool.dismiss, .finished (.error error))
    | .waits => none
    | .granted rest => some (rest, .granted)
  | .granted =>
    if cancelled then some (pool.release task.record.options, .finished (.ok none))
    else some (pool, .unlocking)
  | .unlocking =>
    let result := pool.protector.unlock suite task.record task.password
    some (pool.release task.record.options, .finished ((result.map some).mapError .crypto))
  | .finished result => some (pool, .announced result)
  | .announced result => some (pool, .joined result)
  | .joined _ => none

/-- The state after the next step of a task. -/
def State.step? (state : State) (i : Nat) : Option State := do
  let task ← state.tasks[i]?
  let (pool, phase) ← task.step? suite state.pool state.cancelled
  return {
    pool
    cancelled := state.cancelled || phase.cancels
    tasks := state.tasks.set i { task with phase }
    failure := state.failure.or phase.failure? }

/-- The state after the steps of a schedule; `none` if it is the turn of a task
that cannot go on. -/
def State.run (state : State) (schedule : List Nat) : Option State :=
  schedule.foldlM (State.step? suite) state

def State.done (state : State) : Bool :=
  state.tasks.all fun task => task.phase matches .joined _

def Task.key? (task : Task) : Option PrivateKey :=
  match task.phase with
  | .joined (.ok key) => key
  | _ => none

/-- What loading comes to when all tasks are joined: the first failure, or the
ring of all keys in the order of the records. -/
def State.result (state : State) (forwarding : List PublicKey) : Except EnclaveError KeyRing :=
  match state.failure with
  | some error => .error error
  | none =>
    match state.tasks.mapM Task.key? with
    | some keys => KeyRing.create (keys.map suite.keyPair) forwarding
    | none => .error .incomplete

/-- How long a step takes. Opening a record is left to others, so that even a
refusal comes back only when no other task can go on. -/
inductive Pace
  | instant
  | refusal
  | derivation
deriving DecidableEq, Repr

/-- How long the next step of a task takes; `none` if the task waits for permits
or was joined. A record that no key is derived for is refused at once, as
`Protector.unlock_eq_of_not_derives` says. -/
def Task.pace? (pool : Pool) (task : Task) : Option Pace :=
  match task.phase with
  | .queued =>
    match pool.engage task.record.options with
    | .waits => none
    | _ => some .instant
  | .engaged =>
    match pool.allot task.record.options with
    | .waits => none
    | _ => some .instant
  | .unlocking => if pool.protector.derives task.record then some .derivation else some .refusal
  | .joined _ => none
  | _ => some .instant

/-- The task that goes on: of those whose next step is over first, the first
one. -/
def State.next? (state : State) : Option Nat :=
  [Pace.instant, .refusal, .derivation].findSome? fun pace =>
    state.tasks.findIdx? fun task => task.pace? state.pool = some pace

/-- The state after the given number of steps, or before that if no task can go
on. -/
def State.settle : Nat → State → State
  | 0, state => state
  | steps + 1, state =>
    match state.next?.bind (state.step? suite) with
    | none => state
    | some after => settle steps after

/-- Settling follows one of the schedules. -/
theorem State.exists_run_eq_settle (steps : Nat) (state : State) :
    ∃ schedule, state.run suite schedule = some (state.settle suite steps) := by
  induction steps generalizing state with
  | zero => exact ⟨[], rfl⟩
  | succ steps ih =>
    unfold State.settle
    split
    · exact ⟨[], rfl⟩
    · rename_i after h
      obtain ⟨i, -, hstep⟩ := Option.bind_eq_some_iff.1 h
      obtain ⟨schedule, hrun⟩ := ih after
      exact ⟨i :: schedule, by simpa [run, hstep] using hrun⟩

end Loading

/-- The ring of the keys in some records, and the pool afterwards. A task is
joined after at most six steps. -/
def KeyRing.load (suite : Suite) (pool : Pool) (entries : List (KeyRecord × String))
    (forwarding : List PublicKey) : Except EnclaveError KeyRing × Pool :=
  let state := (Loading.start pool entries).settle suite (6 * entries.length)
  (state.result suite forwarding, state.pool)

end Envelope
