import Modo.Job.Queue

/-!
# Terminal rows

A row that is completed, dead or cancelled is meant to stay that way until the
cleanup deletes it.  Claims, cancels and the reaper test the status they find;
the update an execution sends when its handler ends matches the id alone, so an
execution that outlives a reap of its row may report on a row that somebody
else has finished or cancelled since.

* `LateReport` is the one step that can do this: an execution ends and its
  update takes effect on a terminal row.
* `step_terminal` says that every other step leaves a terminal row as it is, or
  is the cleanup that deletes it; `run_terminal` carries it along a run.
* `Absorbing` and `Frozen` are the two parts of the law for one run.  Without
  late reports a run is frozen, and it is absorbing exactly when no late report
  brings another status (`terminal_law`).
* Late reports come from the reaper: if it never takes the row of a live
  execution, the run is frozen (`frozen_of_sparesLive`).
-/

namespace Modo.Jobs

/-! ## Late reports -/

/-- The retry update of a row finds its entry of the payload index free. -/
def RetryFree (table : JobTable) (job : Job) : Prop :=
  ∀ hash, job.payloadHash = some hash →
    ∀ other ∈ table.rows, other.id ≠ job.id → other.slot ≠ some hash

/-- An execution ends, and the update it sends would set `status` on its row.
The retry update is not sent when the delay panics, and it is refused when
another pending or running row has taken the payload hash. -/
inductive Report (overflowChecks : Bool) (table : JobTable) (execution : Execution) (job : Job) :
    Outcome → Status → Prop
  | ok : Report overflowChecks table execution job .ok .completed
  | dead (outcome : Outcome) (hfailed : outcome.isFailure = true)
      (hlast : execution.maxAttempts ≤ execution.job.attempt) :
      Report overflowChecks table execution job outcome .dead
  | retry (outcome : Outcome) (hfailed : outcome.isFailure = true)
      (hleft : execution.job.attempt < execution.maxAttempts)
      (hdelay : (delaySecs overflowChecks execution.job.attempt).isSome)
      (hfree : RetryFree table job) :
      Report overflowChecks table execution job outcome .pending

/-- The action ends an execution whose row is terminal, and its update sets
`status` on that row. -/
def LateReport (system : System) (state : State) (action : Action) (job : Job)
    (status : Status) : Prop :=
  ∃ execution outcome now later, action = .finish execution outcome now later ∧
    state.table.get? execution.job.id = some job ∧ job.status.isTerminal = true ∧
    Report system.overflowChecks state.table execution job outcome status

theorem get?_handleJobFailure_dead {overflowChecks : Bool} {id : String} {attempt maxAttempts : ℕ}
    {message : String} {now later : DateTime} {table : JobTable} {job : Job}
    (hget : table.get? id = some job) (hlast : maxAttempts ≤ attempt) :
    (handleJobFailure overflowChecks id attempt maxAttempts message now later table).get? id =
      some (job.setDead message now) := by
  have hid : job.id = id := Table.get?_key hget
  unfold handleJobFailure
  rw [if_pos hlast, Table.get?_modify, hget]
  simp [Table.setWhere, hid]

/-- The retry update takes effect exactly when it is sent and not refused. -/
theorem get?_handleJobFailure_retry {overflowChecks : Bool} {id : String}
    {attempt maxAttempts : ℕ} {message : String} {now later : DateTime} {table : JobTable}
    {job : Job} (hget : table.get? id = some job) (hleft : attempt < maxAttempts) :
    (handleJobFailure overflowChecks id attempt maxAttempts message now later table).get? id =
        some job ∨
      (delaySecs overflowChecks attempt).isSome ∧ RetryFree table job := by
  have hid : job.id = id := Table.get?_key hget
  unfold handleJobFailure
  rw [if_neg (by omega)]
  cases hdelay : delaySecs overflowChecks attempt with
  | none => exact Or.inl hget
  | some delay =>
      simp only [Option.isSome_some, true_and]
      cases hupdate : table.update (fun job => decide (job.id = id))
          (Job.setRetry message (later.addSeconds delay) now)
          (Job.setRetry_id message (later.addSeconds delay) now) with
      | none => exact Or.inl hget
      | some table' =>
          right
          have hsome := Option.isSome_of_eq_some hupdate
          rw [Table.update_key_isSome hget, Job.slot_setRetry] at hsome
          intro hash hhash other hother hne
          exact hsome hash hhash other hother (hid ▸ hne)

theorem handleJobFailure_retry_of_free {overflowChecks : Bool} {id : String}
    {attempt maxAttempts : ℕ} {message : String} {now later : DateTime} {table : JobTable}
    {job : Job} (hget : table.get? id = some job) (hleft : attempt < maxAttempts)
    (hdelay : (delaySecs overflowChecks attempt).isSome) (hfree : RetryFree table job) :
    ∃ retryAt,
      (handleJobFailure overflowChecks id attempt maxAttempts message now later table).get? id =
        some (job.setRetry message retryAt now) := by
  have hid : job.id = id := Table.get?_key hget
  obtain ⟨delay, hdelay⟩ := Option.isSome_iff_exists.mp hdelay
  have hsome : (table.update (fun job => decide (job.id = id))
      (Job.setRetry message (later.addSeconds delay) now)
      (Job.setRetry_id message (later.addSeconds delay) now)).isSome := by
    rw [Table.update_key_isSome hget, Job.slot_setRetry]
    intro hash hhash other hother hne
    exact hfree hash hhash other hother (hid ▸ hne)
  obtain ⟨table', hupdate⟩ := Option.isSome_iff_exists.mp hsome
  refine ⟨later.addSeconds delay, ?_⟩
  unfold handleJobFailure
  rw [if_neg (by omega), hdelay]
  simp only [hupdate, Option.getD_some]
  rw [Table.get?_update hupdate, hget]
  simp [Table.setWhere, hid]

/-- An execution that ends leaves its row as it is, or reports a status. -/
theorem finish_same_or_report {overflowChecks : Bool} {execution : Execution} (outcome : Outcome)
    (now later : DateTime) {table : JobTable} {job : Job}
    (hget : table.get? execution.job.id = some job) :
    (finish overflowChecks execution outcome now later table).get? execution.job.id = some job ∨
      ∃ status, Report overflowChecks table execution job outcome status := by
  have hfailure : ∀ message, outcome.isFailure = true →
      (handleJobFailure overflowChecks execution.job.id execution.job.attempt
        execution.maxAttempts message now later table).get? execution.job.id = some job ∨
      ∃ status, Report overflowChecks table execution job outcome status := by
    intro message hfailed
    rcases Nat.lt_or_ge execution.job.attempt execution.maxAttempts with hleft | hlast
    · rcases get?_handleJobFailure_retry hget hleft with hsame | ⟨hdelay, hfree⟩
      · exact Or.inl hsame
      · exact Or.inr ⟨.pending, .retry outcome hfailed hleft hdelay hfree⟩
    · exact Or.inr ⟨.dead, .dead outcome hfailed hlast⟩
  cases outcome with
  | ok => exact Or.inr ⟨.completed, .ok⟩
  | err message => exact hfailure message rfl
  | timeout => exact hfailure "timeout" rfl
  | panic => exact Or.inl hget

/-- A report sets its status. -/
theorem Report.get?_finish {overflowChecks : Bool} {execution : Execution} {outcome : Outcome}
    {table : JobTable} {job : Job} {status : Status}
    (hreport : Report overflowChecks table execution job outcome status) (now later : DateTime)
    (hget : table.get? execution.job.id = some job) :
    ∃ job', (finish overflowChecks execution outcome now later table).get? execution.job.id =
      some job' ∧ job'.status = status := by
  cases hreport with
  | ok =>
      have hid : job.id = execution.job.id := Table.get?_key hget
      refine ⟨job.setCompleted now, ?_, rfl⟩
      unfold finish
      rw [Table.get?_modify, hget]
      simp [Table.setWhere, hid]
  | dead outcome hfailed hlast =>
      cases outcome with
      | ok => cases hfailed
      | panic => cases hfailed
      | err message => exact ⟨_, get?_handleJobFailure_dead hget hlast, rfl⟩
      | timeout => exact ⟨_, get?_handleJobFailure_dead hget hlast, rfl⟩
  | retry outcome hfailed hleft hdelay hfree =>
      cases outcome with
      | ok => cases hfailed
      | panic => cases hfailed
      | err message =>
          obtain ⟨retryAt, hset⟩ := handleJobFailure_retry_of_free hget hleft hdelay hfree
          exact ⟨_, hset, rfl⟩
      | timeout =>
          obtain ⟨retryAt, hset⟩ := handleJobFailure_retry_of_free hget hleft hdelay hfree
          exact ⟨_, hset, rfl⟩

/-- A late report sets its status. -/
theorem LateReport.status_next {system : System} {state next : State} {action : Action}
    {job : Job} {status : Status} (hlate : LateReport system state action job status)
    (hstep : step system state action = some next) :
    ∃ job', next.table.get? job.id = some job' ∧ job'.status = status := by
  obtain ⟨execution, outcome, now, later, rfl, hget, -, hreport⟩ := hlate
  simp only [step] at hstep
  split at hstep
  · rw [Option.some.injEq] at hstep
    subst hstep
    rw [show job.id = execution.job.id from Table.get?_key hget]
    exact hreport.get?_finish now later hget
  · cases hstep

/-! ## One step -/

/-- Every step leaves a terminal row as it is, or deletes it in a cleanup, or is
a late report on it. -/
theorem step_terminal {system : System} {state next : State} {action : Action}
    (hstep : step system state action = some next) {id : String} {job : Job}
    (hget : state.table.get? id = some job) (hterminal : job.status.isTerminal = true) :
    next.table.get? id = some job ∨
      (next.table.get? id = none ∧ ∃ worker now, action = .cleanup worker now) ∨
      ∃ status, LateReport system state action job status := by
  have hrow := step_rowStep hstep id
  have hpending : job.status ≠ .pending := by
    intro hpending
    simp [hpending, Status.isTerminal] at hterminal
  -- an execution that ends on this row either leaves it or reports
  have hfinish : ∀ execution outcome now later, action = .finish execution outcome now later →
      execution.job.id = id → next.table.get? id = some job ∨
        ∃ status, LateReport system state action job status := by
    rintro execution outcome now later rfl rfl
    simp only [step] at hstep
    split at hstep
    · rw [Option.some.injEq] at hstep
      subst hstep
      refine (finish_same_or_report outcome now later hget).imp_right ?_
      rintro ⟨status, hreport⟩
      exact ⟨status, execution, outcome, now, later, rfl, hget, hterminal, hreport⟩
    · cases hstep
  rw [hget] at hrow
  generalize hafter : next.table.get? id = row at hrow hfinish ⊢
  cases hrow with
  | same => exact Or.inl rfl
  | cancel _ now hcancel => exact absurd hcancel hpending
  | claim worker queue slots permits now chosen _ hchosen hclaim => exact absurd hclaim hpending
  | complete execution now later _ hlive hid =>
      exact (hfinish execution .ok now later rfl hid).imp_right Or.inr
  | die execution outcome message now later _ hlive hid hfailed hlast =>
      exact (hfinish execution outcome now later rfl hid).imp_right Or.inr
  | retry execution outcome message retryAt now later _ hlive hid hfailed hleft =>
      exact (hfinish execution outcome now later rfl hid).imp_right Or.inr
  | reap worker now later _ hstale =>
      simp only [stale, Bool.and_eq_true, decide_eq_true_eq] at hstale
      simp [hstale.1, Status.isTerminal] at hterminal
  | delete worker now _ _ => exact Or.inr (Or.inl ⟨rfl, worker, now, rfl⟩)

/-! ## Whole runs -/

/-- In every stretch of the run a terminal row is kept in the sense of `kept`,
or it is gone and a cleanup has run since. -/
def KeepsTerminal (kept : Job → Job → Prop) (system : System) (actions : List Action) : Prop :=
  ∀ before middle after state final id job, actions = before ++ middle ++ after →
    run system initial before = some state → run system state middle = some final →
    state.table.get? id = some job → job.status.isTerminal = true →
    (∃ job', final.table.get? id = some job' ∧ kept job job') ∨
      final.table.get? id = none ∧ ∃ worker now, Action.cleanup worker now ∈ middle

/-- No terminal row changes its status. -/
def Absorbing : System → List Action → Prop :=
  KeepsTerminal fun job job' => job'.status = job.status

/-- Nothing at all happens to a terminal row. -/
def Frozen : System → List Action → Prop :=
  KeepsTerminal fun job job' => job' = job

/-- If every late report keeps its row in the sense of `kept`, a run keeps every
terminal row or deletes it in a cleanup. -/
theorem run_terminal (kept : Job → Job → Prop) (hrefl : ∀ job, kept job job)
    (htrans : ∀ a b c, kept a b → kept b c → kept a c)
    (hstatus : ∀ a b, kept a b → b.status = a.status) {system : System} {state final : State}
    {actions : List Action}
    (hlate : ∀ before action after job status job', Taken system state actions before action after →
      LateReport system before action job status → after.table.get? job.id = some job' →
      kept job job')
    (hrun : run system state actions = some final) {id : String} {job : Job}
    (hissued : id ∈ state.issued) (hget : state.table.get? id = some job)
    (hterminal : job.status.isTerminal = true) :
    (∃ job', final.table.get? id = some job' ∧ kept job job') ∨
      final.table.get? id = none ∧ ∃ worker now, Action.cleanup worker now ∈ actions := by
  induction actions generalizing state job with
  | nil =>
      rw [run, Machine.run_nil, Option.some.injEq] at hrun
      subst hrun
      exact Or.inl ⟨job, hget, hrefl job⟩
  | cons action rest ih =>
      obtain ⟨next, hstep, hrest⟩ := Machine.run_cons_eq_some.mp hrun
      have hlater : ∀ before action' after job status job',
          Taken system next rest before action' after →
          LateReport system before action' job status → after.table.get? job.id = some job' →
          kept job job' := by
        intro before action' after other status job' htaken
        exact hlate before action' after other status job' (htaken.cons hstep)
      have hissued' : id ∈ next.issued := step_issued hstep id hissued
      -- the row after the head step is kept, and the rest of the run keeps it
      have hkept : ∀ middle, next.table.get? id = some middle → kept job middle →
          (∃ job', final.table.get? id = some job' ∧ kept job job') ∨
            final.table.get? id = none ∧
              ∃ worker now, Action.cleanup worker now ∈ action :: rest := by
        intro middle hmiddle hhead
        have hterminal' : middle.status.isTerminal = true := by
          rw [hstatus job middle hhead]
          exact hterminal
        rcases ih hlater hrest hissued' hmiddle hterminal' with
          ⟨job', hfinal, htail⟩ | ⟨hgone, worker, now, hmem⟩
        · exact Or.inl ⟨job', hfinal, htrans job middle job' hhead htail⟩
        · exact Or.inr ⟨hgone, worker, now, List.mem_cons_of_mem _ hmem⟩
      rcases step_terminal hstep hget hterminal with
        hsame | ⟨hgone, worker, now, rfl⟩ | ⟨status, hreport⟩
      · exact hkept job hsame (hrefl job)
      · exact Or.inr ⟨run_get?_eq_none hrest hissued' hgone, worker, now, List.mem_cons_self⟩
      · have hid : job.id = id := Table.get?_key hget
        obtain ⟨middle, hmiddle, -⟩ := hreport.status_next hstep
        have hhead := hlate state action next job status middle
          (Machine.taken_head rest hstep) hreport hmiddle
        exact hkept middle (hid ▸ hmiddle) hhead

theorem keepsTerminal_of_lateReport (kept : Job → Job → Prop) (hrefl : ∀ job, kept job job)
    (htrans : ∀ a b c, kept a b → kept b c → kept a c)
    (hstatus : ∀ a b, kept a b → b.status = a.status) {system : System} {actions : List Action}
    (hlate : ∀ state action next job status job', Taken system initial actions state action next →
      LateReport system state action job status → next.table.get? job.id = some job' →
      kept job job') : KeepsTerminal kept system actions := by
  rintro before middle after state final id job rfl hbefore hmiddle hget hterminal
  have hissued : id ∈ state.issued := (run_recorded hbefore).table id job hget
  refine run_terminal kept hrefl htrans hstatus ?_ hmiddle hissued hget hterminal
  intro state' action next job' status job'' htaken
  exact hlate state' action next job' status job'' ((htaken.append hbefore).append_right after)

/-- No terminal row of a run changes its status exactly when every late report
brings the status the row already has. -/
theorem absorbing_iff (system : System) (actions : List Action) :
    Absorbing system actions ↔
      ∀ state action next job status, Taken system initial actions state action next →
        LateReport system state action job status → status = job.status := by
  constructor
  · rintro habsorbing state action next job status ⟨before, after, rfl, hbefore, hstep⟩ hlate
    obtain ⟨job', hnext, hstatus⟩ := hlate.status_next hstep
    obtain ⟨execution, outcome, now, later, -, hget, hterminal, -⟩ := hlate
    have hid : job.id = execution.job.id := Table.get?_key hget
    rcases habsorbing before [action] after state next job.id job (by simp) hbefore
      (Machine.run_singleton_eq_some.mpr hstep) (hid ▸ hget) hterminal with
      ⟨job'', hsame, hkept⟩ | ⟨hgone, -⟩
    · rw [hnext, Option.some.injEq] at hsame
      subst hsame
      exact hstatus.symm.trans hkept
    · rw [hnext] at hgone
      cases hgone
  · intro hsame
    refine keepsTerminal_of_lateReport (fun job job' => job'.status = job.status)
      (fun _ => rfl) (fun a b c hab hbc => hbc.trans hab) (fun _ _ h => h) ?_
    intro state action next job status job' htaken hlate hnext
    have hkeeps := hsame state action next job status htaken hlate
    obtain ⟨before, after, -, -, hstep⟩ := htaken
    obtain ⟨job'', hnext', hstatus⟩ := hlate.status_next hstep
    rw [hnext, Option.some.injEq] at hnext'
    subst hnext'
    exact hstatus.trans hkeeps

/-- Without late reports nothing at all happens to a terminal row. -/
theorem frozen_of_no_lateReport {system : System} {actions : List Action}
    (hnone : ∀ state action next job status, Taken system initial actions state action next →
      ¬ LateReport system state action job status) : Frozen system actions := by
  refine keepsTerminal_of_lateReport (fun job job' => job' = job)
    (fun _ => rfl) (fun a b c hab hbc => hbc.trans hab) (fun _ _ h => h ▸ rfl) ?_
  intro state action next job status job' htaken hlate
  exact absurd hlate (hnone state action next job status htaken)

/-- **The terminal law of a run.**  The status of terminal rows is absorbing
exactly when every late report brings the status the row already has, and
without late reports a terminal row can only be deleted by the cleanup. -/
theorem terminal_law (system : System) (actions : List Action) :
    (Absorbing system actions ↔
      ∀ state action next job status, Taken system initial actions state action next →
        LateReport system state action job status → status = job.status) ∧
    ((∀ state action next job status, Taken system initial actions state action next →
        ¬ LateReport system state action job status) → Frozen system actions) :=
  ⟨absorbing_iff system actions, frozen_of_no_lateReport⟩

/-- One worker whose handler may run for 900 seconds while rows count as stale
after 600. -/
def slowSystem : System where
  overflowChecks := false
  handlers := fun _ => [("report", ⟨3, 900⟩)]
  staleThresholdSecs := fun _ => 600
  retentionSecs := fun _ => 259200

/-- The row of the job of `zombieRun`. -/
def zombieJob : Job :=
  newJob "job" "report" "null" none { queue := "default" } (.ofSecs 1767225600)

/-- The execution of the job of `zombieRun`. -/
def zombieExecution : Execution := ⟨0, ⟨"job", "report", "default", "null", 1⟩, 3, 900⟩

/-- A job is claimed, reaped while its handler is still running, and cancelled. -/
def zombieRun : List Action :=
  [.enqueue "job" "report" "null" none { queue := "default" } (.ofSecs 1767225600),
   .claim 0 "default" 4 4 (.ofSecs 1767225601) [zombieJob],
   .reap 0 (.ofSecs 1767226262) (.ofSecs 1767226262),
   .cancel "job" (.ofSecs 1767226263)]

/-- The handler of the cancelled job returns. -/
def zombieFinish : Action :=
  .finish zombieExecution .ok (.ofSecs 1767226300) (.ofSecs 1767226300)

theorem zombieRun_status :
    (∃ state, run slowSystem initial zombieRun = some state ∧
      ∃ job, state.table.get? "job" = some job ∧ job.status = .cancelled) ∧
    ∃ final, run slowSystem initial (zombieRun ++ [zombieFinish]) = some final ∧
      ∃ job, final.table.get? "job" = some job ∧ job.status = .completed := by
  refine ⟨⟨_, rfl, _, rfl, ?_⟩, ⟨_, rfl, _, rfl, ?_⟩⟩
  · decide
  · decide

/-- The execution of a cancelled job returns, and the job is completed. -/
theorem zombieRun_not_absorbing : ¬ Absorbing slowSystem (zombieRun ++ [zombieFinish]) := by
  intro habsorbing
  obtain ⟨⟨state, hstate, job, hget, hcancelled⟩, final, hfinal, job', hget', hcompleted⟩ :=
    zombieRun_status
  obtain ⟨middle, hmiddle, hstep⟩ := Machine.run_append_eq_some.mp hfinal
  have hsame : state = middle := Option.some.inj (hstate.symm.trans hmiddle)
  subst hsame
  rcases habsorbing zombieRun [zombieFinish] [] state final "job" job (by simp) hstate hstep hget
    (by simp [hcancelled, Status.isTerminal]) with ⟨job'', hsame, hkept⟩ | ⟨hgone, -⟩
  · rw [hget', Option.some.injEq] at hsame
    subst hsame
    rw [hcompleted, hcancelled] at hkept
    cases hkept
  · rw [hget'] at hgone
    cases hgone

/-! ## Runs without zombies

A late report needs an execution that has lost its row, and only the reaper
takes a row away from a live execution. -/

/-- A pass of the reaper leaves the rows of live executions alone. -/
def SparesLive (system : System) (state : State) (action : Action) : Prop :=
  ∀ worker now later, action = .reap worker now later →
    ∀ execution ∈ state.live, ∀ job, state.table.get? execution.job.id = some job →
      stale (now.addSeconds (-system.staleThresholdSecs worker)) job = false

/-- Every live execution owns its row: the row is running, and no two live
executions share one. -/
structure Owned (state : State) : Prop where
  running : ∀ execution ∈ state.live,
    ∃ job, state.table.get? execution.job.id = some job ∧ job.status = .running
  nodup : (state.live.map fun execution => execution.job.id).Nodup

theorem owned_initial : Owned initial := ⟨by simp [initial], by simp [initial]⟩

/-- A step leaves the running row of a live execution running, unless it ends
that execution. -/
theorem step_running {system : System} {state next : State} {action : Action}
    (hstep : step system state action = some next) (hspares : SparesLive system state action)
    (howned : Owned state) {execution : Execution} (hbefore : execution ∈ state.live)
    (hafter : execution ∈ next.live) :
    ∃ job, next.table.get? execution.job.id = some job ∧ job.status = .running := by
  obtain ⟨job, hget, hrunning⟩ := howned.running execution hbefore
  have hrow := step_rowStep hstep execution.job.id
  rw [hget] at hrow
  -- the execution that ends here is another one, so it has another row
  have hother : ∀ ended outcome now later, action = .finish ended outcome now later →
      ended ∈ state.live → ended.job.id ≠ execution.job.id := by
    rintro ended outcome now later rfl hended heq
    have hsame : ended = execution := List.inj_on_of_nodup_map howned.nodup hended hbefore heq
    subst hsame
    simp only [step, hended, if_true, Option.some.injEq] at hstep
    subst hstep
    exact (howned.nodup.of_map _).not_mem_erase hafter
  generalize hnext : next.table.get? execution.job.id = row at hrow ⊢
  cases hrow with
  | same => exact ⟨job, rfl, hrunning⟩
  | cancel _ now hpending => simp [hpending] at hrunning
  | claim worker queue slots permits now chosen _ hchosen hpending => simp [hpending] at hrunning
  | complete ended now later _ hlive hid => exact absurd hid (hother ended _ now later rfl hlive)
  | die ended outcome message now later _ hlive hid hfailed hlast =>
      exact absurd hid (hother ended outcome now later rfl hlive)
  | retry ended outcome message retryAt now later _ hlive hid hfailed hleft =>
      exact absurd hid (hother ended outcome now later rfl hlive)
  | reap worker now later _ hstale =>
      have hspared := hspares worker now later rfl execution hbefore job hget
      rw [hspared] at hstale
      cases hstale
  | delete worker now _ hterminal => simp [hrunning, Status.isTerminal] at hterminal

theorem step_owned {system : System} {state next : State} {action : Action} (howned : Owned state)
    (hspares : SparesLive system state action) (hstep : step system state action = some next) :
    Owned next := by
  rcases step_live hstep with ⟨worker, queue, slots, permits, now, chosen, rfl⟩ | ⟨-, hsub⟩
  · obtain ⟨hclaim, -, executions, hlive, -, hsublist, -⟩ := step_claim hstep
    obtain ⟨-, -, hchosen, hrows⟩ := claim_chosen hclaim
    have hids := claimed_nodup hchosen hsublist
    refine ⟨?_, ?_⟩
    · intro execution hmem
      have hmem' := hmem
      rw [hlive, List.mem_append] at hmem'
      rcases hmem' with hold | hnew
      · exact step_running hstep hspares howned hold hmem
      · obtain ⟨job, hjob, heq⟩ := mem_claimed hsublist hnew
        refine ⟨job.setRunning now, ?_, rfl⟩
        rw [heq]
        exact get?_claim_of_mem hclaim hjob
    · rw [hlive, List.map_append, List.nodup_append]
      refine ⟨howned.nodup, hids, ?_⟩
      intro id hold other hnew heq
      subst heq
      obtain ⟨old, hmemOld, rfl⟩ := List.mem_map.mp hold
      obtain ⟨new, hmemNew, hid⟩ := List.mem_map.mp hnew
      -- the old execution's row is running, the new one's was pending
      obtain ⟨row, hget, hrunning⟩ := howned.running old hmemOld
      obtain ⟨job, hjob, heq⟩ := mem_claimed hsublist hmemNew
      obtain ⟨hget', hpending, -⟩ := hrows job hjob
      have hsame : job.id = old.job.id := by
        rw [← hid, heq]
        rfl
      rw [hsame, hget, Option.some.injEq] at hget'
      rw [hget', hpending] at hrunning
      cases hrunning
  · refine ⟨?_, howned.nodup.sublist (hsub.map _)⟩
    intro execution hmem
    exact step_running hstep hspares howned (hsub.subset hmem) hmem

/-- **Without zombies the law holds.**  If the reaper never takes the row of an
execution that is still live, nothing happens to a terminal row of the run. -/
theorem frozen_of_sparesLive {system : System} {actions : List Action}
    (hspares : ∀ state action next, Taken system initial actions state action next →
      SparesLive system state action) : Frozen system actions := by
  refine frozen_of_no_lateReport ?_
  rintro state action next job status ⟨before, after, rfl, hbefore, hstep⟩ hlate
  have howned : Owned state := by
    refine Machine.run_invariant_of_allowed Owned (SparesLive system)
      (fun _ _ _ => step_owned) owned_initial ?_ hbefore
    intro state' action' next' htaken
    exact hspares state' action' next' (htaken.append_right (action :: after))
  obtain ⟨execution, outcome, now, later, rfl, hget, hterminal, -⟩ := hlate
  have hlive : execution ∈ state.live := by
    simp only [step] at hstep
    split at hstep
    · assumption
    · cases hstep
  obtain ⟨job', hget', hrunning⟩ := howned.running execution hlive
  rw [hget, Option.some.injEq] at hget'
  rw [hget', hrunning] at hterminal
  cases hterminal

end Modo.Jobs
