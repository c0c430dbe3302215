import Modo.Job.Model
import Modo.Lib.Machine

/-!
# Runs of the job queue

Any number of workers, enqueuers and their background loops share one table.
The state is the table together with the handler executions that are live, the
ids that have been inserted so far and the log of the executions started, in
order.  One action is one SQL statement with the code that belongs to it: a
claim spawns the rows it returned, an execution that ends sends its update.

Nothing ties the actions to the clock or to each other: an execution may
outlive a reap of its row, a worker may die with all its executions, and the
statements of all workers interleave in any order.

* `step` is one action, `RowStep` says what it can do to the row with a given
  id (`step_rowStep`).
* `Recorded` holds in every reachable state: the ids of the table and of the
  live executions have been issued, so a deleted id never comes back
  (`run_get?_eq_none`).
-/

namespace Modo.Jobs

/-- The workers that share the table, and how they were built. -/
structure System where
  /-- Arithmetic overflow panics instead of wrapping. -/
  overflowChecks : Bool
  /-- The registered handlers of each worker. -/
  handlers : ℕ → Handlers
  /-- `stale_threshold_secs` of each worker. -/
  staleThresholdSecs : ℕ → ℕ
  /-- `cleanup.retention_secs` of each worker. -/
  retentionSecs : ℕ → ℕ

/-- The table, the live executions, and what has happened so far. -/
structure State where
  table : JobTable
  live : List Execution
  /-- The ids inserted so far. -/
  issued : List String
  /-- The executions started so far, in order. -/
  started : List Execution

/-- The empty queue. -/
def initial : State := ⟨Table.empty, [], [], []⟩

/-- The steps of the queue. -/
inductive Action where
  /-- The insert of `enqueue_with`, or with a hash that of `enqueue_unique_with`. -/
  | enqueue (id name payload : String) (payloadHash : Option String) (options : EnqueueOptions)
      (now : DateTime)
  /-- `Enqueuer::cancel`. -/
  | cancel (id : String) (now : DateTime)
  /-- A claim of `poll_loop` with `slots` as its limit; `permits` are free when
  the rows come back. -/
  | claim (worker : ℕ) (queue : String) (slots permits : ℕ) (now : DateTime) (chosen : List Job)
  /-- A live execution ends. -/
  | finish (execution : Execution) (outcome : Outcome) (now later : DateTime)
  /-- A worker dies with its executions. -/
  | crash (worker : ℕ)
  /-- A pass of `reaper_loop`; the threshold and the update read the clock in turn. -/
  | reap (worker : ℕ) (now later : DateTime)
  /-- A pass of `cleanup_loop`. -/
  | cleanup (worker : ℕ) (now : DateTime)

/-- One step. -/
def step (system : System) (state : State) : Action → Option State
  | .enqueue id name payload payloadHash options now =>
      -- ULIDs do not repeat
      if id ∈ state.issued then none
      else
        match state.table.insert (newJob id name payload payloadHash options now) with
        | none => some state
        | some table => some { state with table := table, issued := id :: state.issued }
  | .cancel id now => some { state with table := cancel id now state.table }
  | .claim worker queue slots permits now chosen =>
      if slots = 0 then none
      else
        match claim (system.handlers worker) queue slots now chosen state.table with
        | none => none
        | some (table, rows) =>
            match rows.mapM ClaimedJob.ofRow with
            | none => some { state with table := table }
            | some jobs =>
                let executions := dispatch worker (system.handlers worker) permits jobs
                some { state with
                  table := table, live := state.live ++ executions,
                  started := state.started ++ executions }
  | .finish execution outcome now later =>
      if execution ∈ state.live then
        some { state with
          table := finish system.overflowChecks execution outcome now later state.table,
          live := state.live.erase execution }
      else none
  | .crash worker =>
      some { state with
        live := state.live.filter fun execution => decide (execution.worker ≠ worker) }
  | .reap worker now later =>
      some { state with
        table := reap (now.addSeconds (-system.staleThresholdSecs worker)) later state.table }
  | .cleanup worker now =>
      some { state with
        table := cleanup (now.addSeconds (-system.retentionSecs worker)) state.table }

/-- Play a list of actions. -/
abbrev run (system : System) : State → List Action → Option State := Machine.run (step system)

/-- One step of a run. -/
abbrev Taken (system : System) : State → List Action → State → Action → State → Prop :=
  Machine.Taken (step system)

/-! ## What each statement does to one row -/

theorem get?_cancel (id : String) (now : DateTime) (table : JobTable) (k : String) :
    (cancel id now table).get? k = table.get? k ∨
      k = id ∧ ∃ job, table.get? k = some job ∧ job.status = .pending ∧
        (cancel id now table).get? k = some (job.setCancelled now) := by
  unfold cancel
  rw [Table.get?_modify]
  cases hget : table.get? k with
  | none => simp
  | some job =>
      have hid : job.id = k := Table.get?_key hget
      by_cases hmatch : job.id = id ∧ job.status = .pending
      · exact Or.inr ⟨hid ▸ hmatch.1, job, rfl, hmatch.2, by simp [Table.setWhere, hmatch]⟩
      · exact Or.inl (by simp [Table.setWhere, hmatch])

/-- A claim takes pending rows of its queue whose handler is registered. -/
theorem claim_chosen {handlers : Handlers} {queue : String} {slots : ℕ} {now : DateTime}
    {chosen rows : List Job} {table table' : JobTable}
    (hclaim : claim handlers queue slots now chosen table = some (table', rows)) :
    rows = chosen.map (Job.setRunning now) ∧ chosen.length ≤ slots ∧
      (chosen.map Job.id).Nodup ∧ ∀ job ∈ chosen, table.get? job.id = some job ∧
        job.status = .pending ∧ job.queue = queue ∧ job.name ∈ handlers.map Prod.fst := by
  unfold claim at hclaim
  split at hclaim
  · rename_i hlimited
    simp only [Option.some.injEq, Prod.mk.injEq] at hclaim
    have hmem : ∀ job ∈ chosen, job ∈ table.rows ∧ claimable handlers queue now job = true :=
      fun job hjob => List.mem_filter.mp (hlimited.subset job hjob)
    refine ⟨hclaim.2.symm, ?_, ?_, ?_⟩
    · rw [hlimited.length_eq]
      exact Nat.min_le_left _ _
    · refine hlimited.nodup.map_on ?_
      intro job hjob other hother heq
      exact table.key_inj (hmem job hjob).1 (hmem other hother).1 heq
    · intro job hjob
      obtain ⟨hrow, hclaimable⟩ := hmem job hjob
      simp only [claimable, Bool.and_eq_true, decide_eq_true_eq] at hclaimable
      exact ⟨Table.get?_eq_some.mpr ⟨hrow, rfl⟩, hclaimable.1.1.1, hclaimable.1.2, hclaimable.2⟩
  · cases hclaim

theorem get?_claim {handlers : Handlers} {queue : String} {slots : ℕ} {now : DateTime}
    {chosen rows : List Job} {table table' : JobTable}
    (hclaim : claim handlers queue slots now chosen table = some (table', rows)) (k : String) :
    table'.get? k = (table.get? k).map
      (Table.setWhere (fun job => decide (job.id ∈ chosen.map Job.id)) (Job.setRunning now)) := by
  unfold claim at hclaim
  split at hclaim
  · simp only [Option.some.injEq, Prod.mk.injEq] at hclaim
    rw [← hclaim.1, Table.get?_modify]
  · cases hclaim

/-- A chosen row is running afterwards, with its attempt counted. -/
theorem get?_claim_of_mem {handlers : Handlers} {queue : String} {slots : ℕ} {now : DateTime}
    {chosen rows : List Job} {table table' : JobTable}
    (hclaim : claim handlers queue slots now chosen table = some (table', rows)) {job : Job}
    (hjob : job ∈ chosen) : table'.get? job.id = some (job.setRunning now) := by
  have hget := ((claim_chosen hclaim).2.2.2 job hjob).1
  rw [get?_claim hclaim, hget]
  have hid : job.id ∈ chosen.map Job.id := List.mem_map_of_mem hjob
  simp only [Table.setWhere, Option.map_some, hid, decide_true, if_true]

theorem get?_claim_of_notMem {handlers : Handlers} {queue : String} {slots : ℕ} {now : DateTime}
    {chosen rows : List Job} {table table' : JobTable}
    (hclaim : claim handlers queue slots now chosen table = some (table', rows)) {k : String}
    (hk : k ∉ chosen.map Job.id) : table'.get? k = table.get? k := by
  rw [get?_claim hclaim]
  cases hget : table.get? k with
  | none => rfl
  | some job =>
      have hid : job.id ∉ chosen.map Job.id := Table.get?_key hget ▸ hk
      simp only [Table.setWhere, Option.map_some, hid, decide_false, Bool.false_eq_true, if_false]

theorem get?_handleJobFailure (overflowChecks : Bool) (id : String) (attempt maxAttempts : ℕ)
    (message : String) (now later : DateTime) (table : JobTable) (k : String) :
    (handleJobFailure overflowChecks id attempt maxAttempts message now later table).get? k =
        table.get? k ∨
      k = id ∧ ∃ job, table.get? k = some job ∧
        (maxAttempts ≤ attempt ∧
          (handleJobFailure overflowChecks id attempt maxAttempts message now later table).get? k =
            some (job.setDead message now) ∨
        attempt < maxAttempts ∧ ∃ retryAt,
          (handleJobFailure overflowChecks id attempt maxAttempts message now later table).get? k =
            some (job.setRetry message retryAt now)) := by
  unfold handleJobFailure
  split
  · rename_i hlast
    rw [Table.get?_modify]
    cases hget : table.get? k with
    | none => simp
    | some job =>
        have hid : job.id = k := Table.get?_key hget
        by_cases hmatch : job.id = id
        · exact Or.inr ⟨hid ▸ hmatch, job, rfl, Or.inl ⟨hlast, by simp [Table.setWhere, hmatch]⟩⟩
        · exact Or.inl (by simp [Table.setWhere, hmatch])
  · rename_i hleft
    split
    -- the delay overflows, and nothing is written
    · exact Or.inl rfl
    · rename_i delay _
      cases hupdate : table.update (fun job => decide (job.id = id))
          (Job.setRetry message (later.addSeconds delay) now)
          (Job.setRetry_id message (later.addSeconds delay) now) with
      | none => exact Or.inl rfl
      | some table' =>
          rw [Option.getD_some, Table.get?_update hupdate]
          cases hget : table.get? k with
          | none => simp
          | some job =>
              have hid : job.id = k := Table.get?_key hget
              by_cases hmatch : job.id = id
              · exact Or.inr ⟨hid ▸ hmatch, job, rfl,
                  Or.inr ⟨by omega, later.addSeconds delay, by simp [Table.setWhere, hmatch]⟩⟩
              · exact Or.inl (by simp [Table.setWhere, hmatch])

theorem get?_reap (threshold now : DateTime) (table : JobTable) (k : String) :
    (reap threshold now table).get? k = table.get? k ∨
      ∃ job, table.get? k = some job ∧ stale threshold job = true ∧
        (reap threshold now table).get? k = some (job.setReaped now) := by
  unfold reap
  rw [Table.get?_modify]
  cases hget : table.get? k with
  | none => simp
  | some job =>
      by_cases hstale : stale threshold job = true
      · exact Or.inr ⟨job, rfl, hstale, by simp [Table.setWhere, hstale]⟩
      · exact Or.inl (by simp [Table.setWhere, hstale])

theorem get?_cleanup (threshold : DateTime) (table : JobTable) (k : String) :
    (cleanup threshold table).get? k = table.get? k ∨
      ∃ job, table.get? k = some job ∧ job.status.isTerminal = true ∧
        (cleanup threshold table).get? k = none := by
  unfold cleanup
  rw [Table.get?_delete]
  cases hget : table.get? k with
  | none => simp
  | some job =>
      by_cases hexpired : expired threshold job = true
      · refine Or.inr ⟨job, rfl, ?_, by simp [hexpired]⟩
        simp only [expired, Bool.and_eq_true] at hexpired
        exact hexpired.1
      · exact Or.inl (by simp [hexpired])

/-! ## What a step does to one row -/

/-- Everything one action can do to the row under `id`. -/
inductive RowStep (system : System) (state : State) (id : String) :
    Action → Option Job → Option Job → Prop
  | same (action : Action) (row : Option Job) : RowStep system state id action row row
  | insert (name payload : String) (payloadHash : Option String) (options : EnqueueOptions)
      (now : DateTime) (hfresh : id ∉ state.issued) :
      RowStep system state id (.enqueue id name payload payloadHash options now) none
        (some (newJob id name payload payloadHash options now))
  | cancel (job : Job) (now : DateTime) (hpending : job.status = .pending) :
      RowStep system state id (.cancel id now) (some job) (some (job.setCancelled now))
  | claim (worker : ℕ) (queue : String) (slots permits : ℕ) (now : DateTime) (chosen : List Job)
      (job : Job) (hchosen : job ∈ chosen) (hpending : job.status = .pending) :
      RowStep system state id (.claim worker queue slots permits now chosen) (some job)
        (some (job.setRunning now))
  | complete (execution : Execution) (now later : DateTime) (job : Job)
      (hlive : execution ∈ state.live) (hid : execution.job.id = id) :
      RowStep system state id (.finish execution .ok now later) (some job)
        (some (job.setCompleted now))
  | die (execution : Execution) (outcome : Outcome) (message : String) (now later : DateTime)
      (job : Job) (hlive : execution ∈ state.live) (hid : execution.job.id = id)
      (hfailed : outcome.isFailure = true)
      (hlast : execution.maxAttempts ≤ execution.job.attempt) :
      RowStep system state id (.finish execution outcome now later) (some job)
        (some (job.setDead message now))
  | retry (execution : Execution) (outcome : Outcome) (message : String)
      (retryAt now later : DateTime) (job : Job) (hlive : execution ∈ state.live)
      (hid : execution.job.id = id) (hfailed : outcome.isFailure = true)
      (hleft : execution.job.attempt < execution.maxAttempts) :
      RowStep system state id (.finish execution outcome now later) (some job)
        (some (job.setRetry message retryAt now))
  | reap (worker : ℕ) (now later : DateTime) (job : Job)
      (hstale : stale (now.addSeconds (-system.staleThresholdSecs worker)) job = true) :
      RowStep system state id (.reap worker now later) (some job) (some (job.setReaped later))
  | delete (worker : ℕ) (now : DateTime) (job : Job) (hterminal : job.status.isTerminal = true) :
      RowStep system state id (.cleanup worker now) (some job) none

theorem handleJobFailure_rowStep {system : System} {state : State} {execution : Execution}
    (hlive : execution ∈ state.live) {outcome : Outcome} (hfailed : outcome.isFailure = true)
    (message : String) (now later : DateTime) (id : String) :
    RowStep system state id (.finish execution outcome now later) (state.table.get? id)
      ((handleJobFailure system.overflowChecks execution.job.id execution.job.attempt
        execution.maxAttempts message now later state.table).get? id) := by
  rcases get?_handleJobFailure system.overflowChecks execution.job.id execution.job.attempt
    execution.maxAttempts message now later state.table id with
    hsame | ⟨hid, job, hget, ⟨hlast, hset⟩ | ⟨hleft, retryAt, hset⟩⟩
  · rw [hsame]
    exact .same _ _
  · rw [hset, hget]
    exact .die execution outcome message now later job hlive hid.symm hfailed hlast
  · rw [hset, hget]
    exact .retry execution outcome message retryAt now later job hlive hid.symm hfailed hleft

theorem finish_rowStep {system : System} {state : State} {execution : Execution}
    (hlive : execution ∈ state.live) (outcome : Outcome) (now later : DateTime) (id : String) :
    RowStep system state id (.finish execution outcome now later) (state.table.get? id)
      ((finish system.overflowChecks execution outcome now later state.table).get? id) := by
  cases outcome with
  | ok =>
      unfold finish
      rw [Table.get?_modify]
      cases hget : state.table.get? id with
      | none => exact .same _ _
      | some job =>
          have hkey : job.id = id := Table.get?_key hget
          by_cases hmatch : job.id = execution.job.id
          · simp only [Option.map_some, Table.setWhere, hmatch, decide_true, if_true]
            exact .complete execution now later job hlive (hmatch.symm.trans hkey)
          · simp only [Option.map_some, Table.setWhere, hmatch, decide_false,
              Bool.false_eq_true, if_false]
            exact .same _ _
  | err message => exact handleJobFailure_rowStep hlive rfl message now later id
  | timeout => exact handleJobFailure_rowStep hlive rfl "timeout" now later id
  | panic => exact .same _ _

/-- What a claim adds to the live executions and to the log. -/
theorem step_claim {system : System} {state next : State} {worker : ℕ} {queue : String}
    {slots permits : ℕ} {now : DateTime} {chosen : List Job}
    (hstep : step system state (.claim worker queue slots permits now chosen) = some next) :
    claim (system.handlers worker) queue slots now chosen state.table =
        some (next.table, chosen.map (Job.setRunning now)) ∧
      next.issued = state.issued ∧ ∃ executions,
        next.live = state.live ++ executions ∧ next.started = state.started ++ executions ∧
        (executions.map Execution.job).Sublist
          (chosen.map fun job => (job.setRunning now).claimed) ∧
        ∀ execution ∈ executions, execution.worker = worker ∧
          (system.handlers worker).lookup execution.job.name =
            some ⟨execution.maxAttempts, execution.timeoutSecs⟩ := by
  simp only [step] at hstep
  split at hstep
  · cases hstep
  split at hstep
  · cases hstep
  · rename_i table rows hclaim
    have hrows := (claim_chosen hclaim).1
    subst hrows
    split at hstep
    · rw [Option.some.injEq] at hstep
      subst hstep
      exact ⟨hclaim, rfl, [], by simp⟩
    · rename_i jobs hjobs
      rw [Option.some.injEq] at hstep
      subst hstep
      have hspec := dispatch_spec worker (system.handlers worker) permits jobs
      refine ⟨hclaim, rfl, _, rfl, rfl, ?_, hspec.2⟩
      have hmap : jobs = chosen.map fun job => (job.setRunning now).claimed := by
        rw [mapM_ofRow hjobs, List.map_map]
        rfl
      exact hmap ▸ hspec.1

/-- **One step changes the row under an id in one of the ways of `RowStep`.** -/
theorem step_rowStep {system : System} {state next : State} {action : Action}
    (hstep : step system state action = some next) (id : String) :
    RowStep system state id action (state.table.get? id) (next.table.get? id) := by
  cases action with
  | enqueue newId name payload payloadHash options now =>
      simp only [step] at hstep
      split at hstep
      · cases hstep
      rename_i hfresh
      split at hstep
      · rw [Option.some.injEq] at hstep
        subst hstep
        exact .same _ _
      · rename_i table hinsert
        rw [Option.some.injEq] at hstep
        subst hstep
        rw [Table.get?_insert hinsert]
        by_cases hid : newId = id
        · subst hid
          -- the insert of a new id found its place free
          have hfree : state.table.get? newId = none := Table.get?_eq_none_of_insert hinsert
          rw [hfree, if_pos (show (newJob newId name payload payloadHash options now).id = newId
            from rfl)]
          exact .insert name payload payloadHash options now hfresh
        · rw [if_neg (show (newJob newId name payload payloadHash options now).id ≠ id from hid)]
          exact .same _ _
  | cancel target now =>
      simp only [step, Option.some.injEq] at hstep
      subst hstep
      rcases get?_cancel target now state.table id with hsame | ⟨rfl, job, hget, hpending, hset⟩
      · rw [show (cancel target now state.table).get? id = _ from hsame]
        exact .same _ _
      · rw [show (cancel id now state.table).get? id = _ from hset, hget]
        exact .cancel job now hpending
  | claim worker queue slots permits now chosen =>
      have hclaim := (step_claim hstep).1
      -- the claim writes the rows that it chose and no others
      by_cases hid : id ∈ chosen.map Job.id
      · obtain ⟨job, hjob, rfl⟩ := List.mem_map.mp hid
        have hbefore := (claim_chosen hclaim).2.2.2 job hjob
        rw [get?_claim_of_mem hclaim hjob, hbefore.1]
        exact .claim worker queue slots permits now chosen job hjob hbefore.2.1
      · rw [get?_claim_of_notMem hclaim hid]
        exact .same _ _
  | finish execution outcome now later =>
      simp only [step] at hstep
      split at hstep
      · rename_i hlive
        rw [Option.some.injEq] at hstep
        subst hstep
        exact finish_rowStep hlive outcome now later id
      · cases hstep
  | crash worker =>
      simp only [step, Option.some.injEq] at hstep
      subst hstep
      exact .same _ _
  | reap worker now later =>
      simp only [step, Option.some.injEq] at hstep
      subst hstep
      rcases get?_reap (now.addSeconds (-system.staleThresholdSecs worker)) later state.table
          id with
        hsame | ⟨job, hget, hstale, hset⟩
      · rw [show (reap _ later state.table).get? id = _ from hsame]
        exact .same _ _
      · rw [show (reap _ later state.table).get? id = _ from hset, hget]
        exact .reap worker now later job hstale
  | cleanup worker now =>
      simp only [step, Option.some.injEq] at hstep
      subst hstep
      rcases get?_cleanup (now.addSeconds (-system.retentionSecs worker)) state.table id with
        hsame | ⟨job, hget, hterminal, hset⟩
      · rw [show (cleanup _ state.table).get? id = _ from hsame]
        exact .same _ _
      · rw [show (cleanup _ state.table).get? id = _ from hset, hget]
        exact .delete worker now job hterminal

/-! ## The ids in use -/

/-- A row has been inserted under its id, and a live execution was started. -/
structure Recorded (state : State) : Prop where
  table : ∀ id job, state.table.get? id = some job → id ∈ state.issued
  started : ∀ execution ∈ state.started, execution.job.id ∈ state.issued
  live : ∀ execution ∈ state.live, execution ∈ state.started

theorem recorded_initial : Recorded initial :=
  ⟨by simp [initial], by simp [initial], by simp [initial]⟩

theorem step_issued {system : System} {state next : State} {action : Action}
    (hstep : step system state action = some next) : ∀ id ∈ state.issued, id ∈ next.issued := by
  intro id hid
  cases action with
  | enqueue newId name payload payloadHash options now =>
      simp only [step] at hstep
      split at hstep
      · cases hstep
      split at hstep <;> (rw [Option.some.injEq] at hstep; subst hstep)
      · exact hid
      · exact List.mem_cons_of_mem _ hid
  | claim worker queue slots permits now chosen => exact (step_claim hstep).2.1 ▸ hid
  | finish execution outcome now later =>
      simp only [step] at hstep
      split at hstep
      · rw [Option.some.injEq] at hstep
        subst hstep
        exact hid
      · cases hstep
  | _ =>
      simp only [step, Option.some.injEq] at hstep
      subst hstep
      exact hid

/-- Only a claim starts executions; every other action can only end some. -/
theorem step_live {system : System} {state next : State} {action : Action}
    (hstep : step system state action = some next) :
    (∃ worker queue slots permits now chosen,
        action = .claim worker queue slots permits now chosen) ∨
      next.started = state.started ∧ next.live.Sublist state.live := by
  cases action with
  | enqueue newId name payload payloadHash options now =>
      right
      simp only [step] at hstep
      split at hstep
      · cases hstep
      split at hstep <;> (rw [Option.some.injEq] at hstep; subst hstep)
      · exact ⟨rfl, List.Sublist.refl _⟩
      · exact ⟨rfl, List.Sublist.refl _⟩
  | claim worker queue slots permits now chosen => exact Or.inl ⟨_, _, _, _, _, _, rfl⟩
  | finish execution outcome now later =>
      right
      simp only [step] at hstep
      split at hstep
      · rw [Option.some.injEq] at hstep
        subst hstep
        exact ⟨rfl, List.erase_sublist⟩
      · cases hstep
  | crash worker =>
      right
      simp only [step, Option.some.injEq] at hstep
      subst hstep
      exact ⟨rfl, List.filter_sublist⟩
  | _ =>
      right
      simp only [step, Option.some.injEq] at hstep
      subst hstep
      exact ⟨rfl, List.Sublist.refl _⟩

/-- A row that is there after an enqueue was there before, or its id has just
been issued. -/
theorem step_table_issued {system : System} {state next : State} {action : Action}
    (hstep : step system state action = some next) (hrecorded : Recorded state) {id : String}
    {job : Job} (hget : next.table.get? id = some job) : id ∈ next.issued := by
  cases hbefore : state.table.get? id with
  | some old => exact step_issued hstep id (hrecorded.table id old hbefore)
  | none =>
      have hrow := step_rowStep hstep id
      rw [hget, hbefore] at hrow
      cases hrow with
      | insert name payload payloadHash options now hfresh =>
          simp only [step, hfresh, if_false] at hstep
          split at hstep <;> (rw [Option.some.injEq] at hstep; subst hstep)
          · rw [hget] at hbefore
            cases hbefore
          · exact List.mem_cons_self

/-- A claimed execution belongs to a row that the claim took. -/
theorem mem_claimed {executions : List Execution} {chosen : List Job} {now : DateTime}
    (hsublist : (executions.map Execution.job).Sublist
      (chosen.map fun job => (job.setRunning now).claimed))
    {execution : Execution} (hmem : execution ∈ executions) :
    ∃ job ∈ chosen, execution.job = (job.setRunning now).claimed := by
  have hjob := hsublist.subset (List.mem_map_of_mem hmem)
  obtain ⟨job, hjob, heq⟩ := List.mem_map.mp hjob
  exact ⟨job, hjob, heq.symm⟩

/-- The executions of one claim belong to different jobs. -/
theorem claimed_nodup {executions : List Execution} {chosen : List Job} {now : DateTime}
    (hchosen : (chosen.map Job.id).Nodup)
    (hsublist : (executions.map Execution.job).Sublist
      (chosen.map fun job => (job.setRunning now).claimed)) :
    (executions.map fun execution => execution.job.id).Nodup := by
  have hids := hsublist.map ClaimedJob.id
  rw [List.map_map, List.map_map] at hids
  exact hchosen.sublist hids

theorem step_recorded {system : System} {state next : State} {action : Action}
    (hrecorded : Recorded state) (hstep : step system state action = some next) :
    Recorded next := by
  refine ⟨fun id job hget => step_table_issued hstep hrecorded hget, ?_, ?_⟩
  · intro execution hstarted
    rcases step_live hstep with ⟨worker, queue, slots, permits, now, chosen, rfl⟩ | ⟨hsame, -⟩
    · obtain ⟨hclaim, -, executions, -, hlog, hsublist, -⟩ := step_claim hstep
      rw [hlog, List.mem_append] at hstarted
      rcases hstarted with hold | hnew
      · exact step_issued hstep _ (hrecorded.started execution hold)
      · obtain ⟨job, hjob, heq⟩ := mem_claimed hsublist hnew
        have hbefore := ((claim_chosen hclaim).2.2.2 job hjob).1
        rw [heq]
        exact step_issued hstep _ (hrecorded.table job.id job hbefore)
    · exact step_issued hstep _ (hrecorded.started execution (hsame ▸ hstarted))
  · intro execution hlive
    rcases step_live hstep with ⟨worker, queue, slots, permits, now, chosen, rfl⟩ | ⟨hsame, hsub⟩
    · obtain ⟨-, -, executions, hnext, hlog, -, -⟩ := step_claim hstep
      rw [hnext, List.mem_append] at hlive
      rw [hlog, List.mem_append]
      exact hlive.imp_left (hrecorded.live execution)
    · exact hsame ▸ hrecorded.live execution (hsub.subset hlive)

/-- Every reachable state is recorded. -/
theorem run_recorded {system : System} {actions : List Action} {state : State}
    (hrun : run system initial actions = some state) : Recorded state :=
  Machine.run_invariant Recorded (fun _ _ _ => step_recorded) recorded_initial hrun

/-- A deleted id never comes back. -/
theorem run_get?_eq_none {system : System} {state final : State} {actions : List Action}
    (hrun : run system state actions = some final) {id : String} (hid : id ∈ state.issued)
    (hnone : state.table.get? id = none) : final.table.get? id = none := by
  suffices hinv : id ∈ final.issued ∧ final.table.get? id = none from hinv.2
  refine Machine.run_invariant (fun state => id ∈ state.issued ∧ state.table.get? id = none) ?_
    ⟨hid, hnone⟩ hrun
  rintro before action after ⟨hissued, hgone⟩ hstep
  refine ⟨step_issued hstep id hissued, ?_⟩
  have hrow := step_rowStep hstep id
  rw [hgone] at hrow
  generalize hafter : after.table.get? id = row at hrow
  cases hrow with
  | same => rfl
  | insert name payload payloadHash options now hfresh => exact absurd hissued hfresh

end Modo.Jobs
