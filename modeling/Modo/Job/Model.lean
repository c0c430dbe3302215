import Modo.Lib.Table
import Modo.Time

/-!
# The jobs table and the statements that change it

`job` keeps its queue in one SQLite table.  This file gives the row, the table
with the constraints of the documented schema (the primary key `id` and the
unique index on `payload_hash` over pending and running rows), and one
definition for every statement: the inserts of `Enqueuer`, `Enqueuer::cancel`,
the claim of `poll_loop` with the dispatch of the rows it returns, the
completion and failure updates of an execution, the reaper and the cleanup.

A statement reads the clock before it is sent, so the instants are arguments.
Which rows a claim takes when several share a `run_at` is left open by SQL; the
chosen rows are an argument of `claim`, which accepts every choice SQLite may
make and no other.
-/

namespace Modo.Jobs

/-- Job lifecycle status. -/
inductive Status where
  | pending
  | running
  | completed
  | dead
  | cancelled
  deriving DecidableEq, Repr

namespace Status

/-- Statuses that are final. -/
def isTerminal : Status → Bool
  | completed | dead | cancelled => true
  | pending | running => false

end Status

/-- A row of the `jobs` table. -/
structure Job where
  id : String
  name : String
  queue : String
  payload : String
  payloadHash : Option String
  status : Status
  attempt : ℕ
  runAt : DateTime
  errorMessage : Option String
  startedAt : Option DateTime
  completedAt : Option DateTime
  failedAt : Option DateTime
  createdAt : DateTime
  updatedAt : DateTime
  deriving DecidableEq

/-- The entry of a row in `idx_jobs_payload_hash`, the unique index over
pending and running rows. -/
def Job.slot (job : Job) : Option String :=
  if job.status.isTerminal then none else job.payloadHash

/-- The `jobs` table. -/
abbrev JobTable := Table Job.id Job.slot

/-! ## Enqueueing and cancelling -/

/-- `EnqueueOptions`. -/
structure EnqueueOptions where
  queue : String := "default"
  runAt : Option DateTime := none

/-- The row inserted by `enqueue_with` (no payload hash) and by
`enqueue_unique_with`. -/
def newJob (id name payload : String) (payloadHash : Option String) (options : EnqueueOptions)
    (now : DateTime) : Job where
  id := id
  name := name
  queue := options.queue
  payload := payload
  payloadHash := payloadHash
  status := .pending
  attempt := 0
  runAt := options.runAt.getD now
  errorMessage := none
  startedAt := none
  completedAt := none
  failedAt := none
  createdAt := now
  updatedAt := now

/-- The `SET` list of `Enqueuer::cancel`. -/
def Job.setCancelled (now : DateTime) (job : Job) : Job :=
  { job with status := .cancelled, updatedAt := now }

@[simp] theorem Job.setCancelled_id (now : DateTime) (job : Job) :
    (job.setCancelled now).id = job.id := rfl

@[simp] theorem Job.slot_setCancelled (now : DateTime) (job : Job) :
    (job.setCancelled now).slot = none := rfl

/-- `Enqueuer::cancel`: a pending job only. -/
def cancel (id : String) (now : DateTime) (table : JobTable) : JobTable :=
  table.modify (fun job => decide (job.id = id ∧ job.status = .pending)) (Job.setCancelled now)
    (Job.setCancelled_id now) (fun job _ _ => Or.inr (job.slot_setCancelled now))

/-! ## Claiming -/

/-- `JobOptions`. -/
structure JobOptions where
  maxAttempts : ℕ := 3
  timeoutSecs : ℕ := 300
  deriving DecidableEq

/-- The handlers of a worker, by job name. -/
abbrev Handlers := List (String × JobOptions)

/-- The rows the inner `SELECT` of the claim may take. -/
def claimable (handlers : Handlers) (queue : String) (now : DateTime) (job : Job) : Bool :=
  decide (job.status = .pending) && decide (job.runAt.textLE now) && decide (job.queue = queue) &&
    decide (job.name ∈ handlers.map Prod.fst)

/-- The `SET` list of the claim. -/
def Job.setRunning (now : DateTime) (job : Job) : Job :=
  { job with
    status := .running, attempt := job.attempt + 1, startedAt := some now, updatedAt := now }

@[simp] theorem Job.setRunning_id (now : DateTime) (job : Job) :
    (job.setRunning now).id = job.id := rfl

theorem Job.slot_setRunning (now : DateTime) {job : Job} (hpending : job.status = .pending) :
    (job.setRunning now).slot = job.slot := by
  simp [Job.slot, Job.setRunning, hpending, Status.isTerminal]

/-- The `UPDATE … WHERE id IN (SELECT … ORDER BY run_at ASC LIMIT slots)
RETURNING …` of `poll_loop`, with the rows it returns.  It is `none` when
`chosen` is not an answer of the `SELECT`. -/
def claim (handlers : Handlers) (queue : String) (slots : ℕ) (now : DateTime)
    (chosen : List Job) (table : JobTable) : Option (JobTable × List Job) :=
  if h : IsLimited (fun a b => a.runAt.textLE b.runAt) slots
      (table.rows.filter (claimable handlers queue now)) chosen then
    some (table.modify (fun job => decide (job.id ∈ chosen.map Job.id)) (Job.setRunning now)
      (Job.setRunning_id now) (by
        intro job hjob hchosen
        -- a row whose id was chosen is the chosen row, so it was pending
        obtain ⟨other, hother, hid⟩ := List.mem_map.mp (of_decide_eq_true hchosen)
        have hcandidate := List.mem_filter.mp (h.subset other hother)
        have hsame : other = job := table.key_inj hcandidate.1 hjob hid
        have hpending : job.status = .pending := by
          have := hcandidate.2
          simp only [claimable, Bool.and_eq_true, decide_eq_true_eq] at this
          exact hsame ▸ this.1.1.1
        exact Or.inl (Job.slot_setRunning now hpending)),
      chosen.map (Job.setRunning now))
  else none

/-- A job row as `poll_loop` reads it back. -/
structure ClaimedJob where
  id : String
  name : String
  queue : String
  payload : String
  attempt : ℕ
  deriving DecidableEq

/-- The returned columns of a row. -/
def Job.claimed (job : Job) : ClaimedJob :=
  ⟨job.id, job.name, job.queue, job.payload, job.attempt⟩

/-- One returned row; reading the attempt as an `i32` fails when it is out of
range. -/
def ClaimedJob.ofRow (job : Job) : Option ClaimedJob :=
  if job.attempt < 2 ^ 31 then some job.claimed else none

/-- A spawned handler execution. -/
structure Execution where
  worker : ℕ
  job : ClaimedJob
  maxAttempts : ℕ
  timeoutSecs : ℕ
  deriving DecidableEq

/-- What `poll_loop` does with one claimed row. -/
inductive Dispatch where
  | noHandler
  | noPermit
  | spawned (execution : Execution)
  deriving DecidableEq

/-- One turn of the loop over the claimed rows: look up the handler, then take
a permit. -/
def dispatchOne (worker : ℕ) (handlers : Handlers) (permits : ℕ) (job : ClaimedJob) : Dispatch :=
  match handlers.lookup job.name with
  | none => .noHandler
  | some options =>
      match permits with
      | 0 => .noPermit
      | _ + 1 => .spawned ⟨worker, job, options.maxAttempts, options.timeoutSecs⟩

/-- The loop over the claimed rows, starting with `permits` free permits: a row
without handler is skipped, and the first row without permit ends the loop. -/
def dispatch (worker : ℕ) (handlers : Handlers) : ℕ → List ClaimedJob → List Execution
  | _, [] => []
  | permits, job :: rest =>
      match dispatchOne worker handlers permits job with
      | .noHandler => dispatch worker handlers permits rest
      | .noPermit => []
      | .spawned execution => execution :: dispatch worker handlers (permits - 1) rest

theorem mapM_ofRow {rows : List Job} {jobs : List ClaimedJob}
    (hjobs : rows.mapM ClaimedJob.ofRow = some jobs) : jobs = rows.map Job.claimed := by
  induction rows generalizing jobs with
  | nil => simpa using hjobs.symm
  | cons row rest ih =>
      simp only [List.mapM_cons, Option.bind_eq_bind, Option.bind_eq_some_iff] at hjobs
      obtain ⟨job, hjob, tail, htail, heq⟩ := hjobs
      have hclaimed : row.claimed = job := by
        unfold ClaimedJob.ofRow at hjob
        split at hjob
        · exact Option.some.inj hjob
        · cases hjob
      rw [List.map_cons, hclaimed, ← ih htail]
      exact (Option.some.inj heq).symm

/-- The dispatch loop starts some of the rows it is given, in their order, each
under the options of its handler. -/
theorem dispatch_spec (worker : ℕ) (handlers : Handlers) (permits : ℕ) (jobs : List ClaimedJob) :
    ((dispatch worker handlers permits jobs).map Execution.job).Sublist jobs ∧
      ∀ execution ∈ dispatch worker handlers permits jobs, execution.worker = worker ∧
        handlers.lookup execution.job.name =
          some ⟨execution.maxAttempts, execution.timeoutSecs⟩ := by
  induction jobs generalizing permits with
  | nil => simp [dispatch]
  | cons job rest ih =>
      unfold dispatch
      cases hone : dispatchOne worker handlers permits job with
      | noHandler => exact ⟨(ih permits).1.cons job, (ih permits).2⟩
      | noPermit => simp
      | spawned execution =>
          have hspawned : execution.job = job ∧ execution.worker = worker ∧
              handlers.lookup job.name =
                some ⟨execution.maxAttempts, execution.timeoutSecs⟩ := by
            unfold dispatchOne at hone
            cases hlookup : handlers.lookup job.name with
            | none => simp [hlookup] at hone
            | some options =>
                cases permits with
                | zero => simp [hlookup] at hone
                | succ permits =>
                    simp only [hlookup, Dispatch.spawned.injEq] at hone
                    subst hone
                    exact ⟨rfl, rfl, rfl⟩
          obtain ⟨hjob, hworker, hlookup⟩ := hspawned
          refine ⟨?_, List.forall_mem_cons.mpr ⟨⟨hworker, by rw [hjob]; exact hlookup⟩, (ih _).2⟩⟩
          simp only [List.map_cons, hjob]
          exact (ih _).1.cons_cons job

/-! ## Finishing -/

/-- How a handler execution ends. -/
inductive Outcome where
  | ok
  | err (message : String)
  | timeout
  | panic
  deriving DecidableEq

/-- The outcomes that go through `handle_job_failure`. -/
def Outcome.isFailure : Outcome → Bool
  | err _ | timeout => true
  | ok | panic => false

/-- The `SET` list of the completion update. -/
def Job.setCompleted (now : DateTime) (job : Job) : Job :=
  { job with status := .completed, completedAt := some now, updatedAt := now }

@[simp] theorem Job.setCompleted_id (now : DateTime) (job : Job) :
    (job.setCompleted now).id = job.id := rfl

@[simp] theorem Job.slot_setCompleted (now : DateTime) (job : Job) :
    (job.setCompleted now).slot = none := rfl

/-- The `SET` list of the last failure. -/
def Job.setDead (message : String) (now : DateTime) (job : Job) : Job :=
  { job with
    status := .dead, failedAt := some now, errorMessage := some message, updatedAt := now }

@[simp] theorem Job.setDead_id (message : String) (now : DateTime) (job : Job) :
    (job.setDead message now).id = job.id := rfl

@[simp] theorem Job.slot_setDead (message : String) (now : DateTime) (job : Job) :
    (job.setDead message now).slot = none := rfl

/-- The `SET` list of a failure with attempts left. -/
def Job.setRetry (message : String) (retryAt now : DateTime) (job : Job) : Job :=
  { job with
    status := .pending, runAt := retryAt, startedAt := none, failedAt := some now,
    errorMessage := some message, updatedAt := now }

@[simp] theorem Job.setRetry_id (message : String) (retryAt now : DateTime) (job : Job) :
    (job.setRetry message retryAt now).id = job.id := rfl

@[simp] theorem Job.slot_setRetry (message : String) (retryAt now : DateTime) (job : Job) :
    (job.setRetry message retryAt now).slot = job.payloadHash := rfl

/-- `min(5u64 * 2u64.pow(attempt - 1), 3600)`.  In a build with overflow checks
the arithmetic panics where it wraps otherwise. -/
def delaySecs (overflowChecks : Bool) (attempt : ℕ) : Option ℕ :=
  if overflowChecks ∧ (attempt = 0 ∨ 2 ^ 64 ≤ 5 * 2 ^ (attempt - 1)) then none
  else
    let exponent := (attempt + (2 ^ 32 - 1)) % 2 ^ 32
    some (min (5 * (2 ^ exponent % 2 ^ 64) % 2 ^ 64) 3600)

/-- `handle_job_failure`.  The updates match on the id alone, and their errors
are discarded; a panic in the delay leaves the table alone.  `now` is the
instant passed in, `later` the one read for the retry. -/
def handleJobFailure (overflowChecks : Bool) (id : String) (attempt maxAttempts : ℕ)
    (message : String) (now later : DateTime) (table : JobTable) : JobTable :=
  if maxAttempts ≤ attempt then
    table.modify (fun job => decide (job.id = id)) (Job.setDead message now)
      (Job.setDead_id message now) (fun job _ _ => Or.inr (job.slot_setDead message now))
  else
    match delaySecs overflowChecks attempt with
    | none => table
    | some delay =>
        (table.update (fun job => decide (job.id = id))
          (Job.setRetry message (later.addSeconds delay) now)
          (Job.setRetry_id message (later.addSeconds delay) now)).getD table

/-- What the spawned task does to the table when its handler has ended. -/
def finish (overflowChecks : Bool) (execution : Execution) (outcome : Outcome)
    (now later : DateTime) (table : JobTable) : JobTable :=
  match outcome with
  | .ok =>
      table.modify (fun job => decide (job.id = execution.job.id)) (Job.setCompleted now)
        (Job.setCompleted_id now) (fun job _ _ => Or.inr (job.slot_setCompleted now))
  | .err message =>
      handleJobFailure overflowChecks execution.job.id execution.job.attempt
        execution.maxAttempts message now later table
  | .timeout =>
      handleJobFailure overflowChecks execution.job.id execution.job.attempt
        execution.maxAttempts "timeout" now later table
  | .panic => table

/-! ## Reaping and cleaning up -/

/-- The `SET` list of the reaper. -/
def Job.setReaped (now : DateTime) (job : Job) : Job :=
  { job with status := .pending, startedAt := none, updatedAt := now }

@[simp] theorem Job.setReaped_id (now : DateTime) (job : Job) :
    (job.setReaped now).id = job.id := rfl

theorem Job.slot_setReaped (now : DateTime) {job : Job} (hrunning : job.status = .running) :
    (job.setReaped now).slot = job.slot := by
  simp [Job.slot, Job.setReaped, hrunning, Status.isTerminal]

/-- `status = 'running' AND started_at < threshold`; a `NULL` never compares. -/
def stale (threshold : DateTime) (job : Job) : Bool :=
  decide (job.status = .running) &&
    job.startedAt.any fun started => decide (started.textLT threshold)

/-- One pass of `reaper_loop`. -/
def reap (threshold now : DateTime) (table : JobTable) : JobTable :=
  table.modify (stale threshold) (Job.setReaped now) (Job.setReaped_id now) (by
    intro job _ hstale
    have hrunning : job.status = .running := by
      simp only [stale, Bool.and_eq_true, decide_eq_true_eq] at hstale
      exact hstale.1
    exact Or.inl (Job.slot_setReaped now hrunning))

/-- `status IN ('completed', 'dead', 'cancelled') AND updated_at < threshold`. -/
def expired (threshold : DateTime) (job : Job) : Bool :=
  job.status.isTerminal && decide (job.updatedAt.textLT threshold)

/-- One pass of `cleanup_loop`. -/
def cleanup (threshold : DateTime) (table : JobTable) : JobTable :=
  table.delete (expired threshold)

end Modo.Jobs
