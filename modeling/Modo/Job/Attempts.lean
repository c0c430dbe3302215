import Modo.Job.Queue
import Mathlib.Data.List.Perm.Subperm

/-!
# Attempts

The claim counts an attempt on every row it takes, and an execution carries the
number its row had then.  No other statement writes the column, so the numbers
under which one job is started only grow: `Numbered` is the invariant, and
`started_increasing` the result for every run and any number of workers.

The bound `max_attempts` is compared with that number in `handle_job_failure`
and nowhere else.  `ReturnsExhausted` lists the two steps that make a row
pending although its attempts are used up: the reaper, which does not look at
the attempt, and the failure of an execution that has lost its row, which looks
at its own.  As long as a run takes none of them, `Bounded` holds and the job is
started at most `max_attempts` times (`started_le_maxAttempts`).
-/

namespace Modo.Jobs

/-! ## Attempt numbers grow -/

/-- The executions of a job are started under growing attempt numbers, none of
them above the number in its row. -/
structure Numbered (state : State) : Prop where
  increasing : state.started.Pairwise fun first second =>
    first.job.id = second.job.id → first.job.attempt < second.job.attempt
  counted : ∀ execution ∈ state.started, ∀ job,
    state.table.get? execution.job.id = some job → execution.job.attempt ≤ job.attempt

theorem numbered_initial : Numbered initial := ⟨List.Pairwise.nil, by simp [initial]⟩

/-- No step lowers the attempt number of a row. -/
theorem step_attempt_le {system : System} {state next : State} {action : Action}
    (hstep : step system state action = some next) {id : String} (hissued : id ∈ state.issued)
    {job' : Job} (hget : next.table.get? id = some job') :
    ∃ job, state.table.get? id = some job ∧ job.attempt ≤ job'.attempt := by
  have hrow := step_rowStep hstep id
  rw [hget] at hrow
  generalize hbefore : state.table.get? id = row at hrow
  cases hrow with
  | same => exact ⟨job', rfl, le_rfl⟩
  | insert name payload payloadHash options now hfresh => exact absurd hissued hfresh
  | cancel job now hpending => exact ⟨job, rfl, le_rfl⟩
  | claim worker queue slots permits now chosen job hchosen hpending =>
      exact ⟨job, rfl, Nat.le_succ _⟩
  | complete execution now later job hlive hid => exact ⟨job, rfl, le_rfl⟩
  | die execution outcome message now later job hlive hid hfailed hlast => exact ⟨job, rfl, le_rfl⟩
  | retry execution outcome message retryAt now later job hlive hid hfailed hleft =>
      exact ⟨job, rfl, le_rfl⟩
  | reap worker now later job hstale => exact ⟨job, rfl, le_rfl⟩

theorem step_numbered {system : System} {state next : State} {action : Action}
    (hrecorded : Recorded state) (hnumbered : Numbered state)
    (hstep : step system state action = some next) : Numbered next := by
  -- an execution of the log stays below its row
  have hold : ∀ execution ∈ state.started, ∀ job,
      next.table.get? execution.job.id = some job → execution.job.attempt ≤ job.attempt := by
    intro execution hmem job' hget
    obtain ⟨job, hbefore, hle⟩ :=
      step_attempt_le hstep (hrecorded.started execution hmem) hget
    exact Nat.le_trans (hnumbered.counted execution hmem job hbefore) hle
  rcases step_live hstep with ⟨worker, queue, slots, permits, now, chosen, rfl⟩ | ⟨hsame, -⟩
  · obtain ⟨hclaim, -, executions, -, hlog, hsublist, -⟩ := step_claim hstep
    obtain ⟨-, -, hchosen, hrows⟩ := claim_chosen hclaim
    have hids := claimed_nodup hchosen hsublist
    refine ⟨?_, ?_⟩
    · rw [hlog, List.pairwise_append]
      refine ⟨hnumbered.increasing, ?_, ?_⟩
      · rw [List.Nodup, List.pairwise_map] at hids
        exact hids.imp fun hne heq => absurd heq hne
      · intro first hfirst second hsecond heq
        obtain ⟨job, hjob, hclaimed⟩ := mem_claimed hsublist hsecond
        have hget : state.table.get? first.job.id = some job := by
          rw [heq, hclaimed]
          exact (hrows job hjob).1
        have hle := hnumbered.counted first hfirst job hget
        rw [hclaimed]
        exact Nat.lt_succ_of_le hle
    · intro execution hmem job hget
      rw [hlog, List.mem_append] at hmem
      rcases hmem with hbefore | hnew
      · exact hold execution hbefore job hget
      · obtain ⟨row, hrow, hclaimed⟩ := mem_claimed hsublist hnew
        have hafter := get?_claim_of_mem hclaim hrow
        rw [hclaimed] at hget ⊢
        rw [show (row.setRunning now).claimed.id = row.id from rfl, hafter,
          Option.some.injEq] at hget
        rw [← hget]
        exact le_rfl
  · rw [← hsame] at hold
    exact ⟨hsame ▸ hnumbered.increasing, hold⟩

theorem run_numbered {system : System} {actions : List Action} {state : State}
    (hrun : run system initial actions = some state) : Recorded state ∧ Numbered state :=
  Machine.run_invariant (fun state => Recorded state ∧ Numbered state)
    (fun _ _ _ hinv hstep =>
      ⟨step_recorded hinv.1 hstep, step_numbered hinv.1 hinv.2 hstep⟩)
    ⟨recorded_initial, numbered_initial⟩ hrun

/-- **Claims are exclusive.**  In every run of any number of workers the
attempt numbers under which a job is started strictly increase, and no two
executions are started under the same job and attempt. -/
theorem started_increasing {system : System} {actions : List Action} {state : State}
    (hrun : run system initial actions = some state) :
    (state.started.Pairwise fun first second =>
      first.job.id = second.job.id → first.job.attempt < second.job.attempt) ∧
    (state.started.map fun execution => (execution.job.id, execution.job.attempt)).Nodup := by
  have hincreasing := (run_numbered hrun).2.increasing
  refine ⟨hincreasing, ?_⟩
  rw [List.Nodup, List.pairwise_map]
  refine hincreasing.imp ?_
  intro first second hlt heq
  rw [Prod.mk.injEq] at heq
  exact absurd heq.2 (Nat.ne_of_lt (hlt heq.1))

/-! ### One attempt, two workers -/

/-- Two workers whose handler allows one attempt. -/
def onceSystem : System where
  overflowChecks := false
  handlers := fun _ => [("report", ⟨1, 300⟩)]
  staleThresholdSecs := fun _ => 600
  retentionSecs := fun _ => 259200

/-- The row of the job of `crashRun`. -/
def onceJob : Job :=
  newJob "job" "report" "null" none { queue := "default" } (.ofSecs 1767225600)

/-- The row of `crashRun` after its first execution has been reaped. -/
def onceReaped : Job :=
  (onceJob.setRunning (.ofSecs 1767225601)).setReaped (.ofSecs 1767226262)

/-- A worker claims a job and crashes, the other one reaps the row and claims
it again. -/
def crashRun : List Action :=
  [.enqueue "job" "report" "null" none { queue := "default" } (.ofSecs 1767225600),
   .claim 0 "default" 4 4 (.ofSecs 1767225601) [onceJob],
   .crash 0,
   .reap 1 (.ofSecs 1767226262) (.ofSecs 1767226262),
   .claim 1 "default" 4 4 (.ofSecs 1767226263) [onceReaped]]

/-- The two executions of `crashRun` carry different attempts. -/
theorem crashRun_increasing : ∃ state, run onceSystem initial crashRun = some state ∧
    (state.started.map fun execution => (execution.job.id, execution.job.attempt)) =
      [("job", 1), ("job", 2)] ∧
    (state.started.map fun execution => (execution.job.id, execution.job.attempt)).Nodup :=
  ⟨_, rfl, by decide,
    (started_increasing (show run onceSystem initial crashRun = _ from rfl)).2⟩

/-! ## The attempt bound -/

/-- Every worker that handles `name` allows `m` attempts. -/
def AllowsAttempts (system : System) (name : String) (m : ℕ) : Prop :=
  ∀ worker options, (system.handlers worker).lookup name = some options → options.maxAttempts = m

/-- Whoever enqueues `id` enqueues it for the handler `name`. -/
def EnqueuedAs (name id : String) (action : Action) : Prop :=
  ∀ name' payload payloadHash options now,
    action = .enqueue id name' payload payloadHash options now → name' = name

/-- The action makes the row of `id` pending although its `m` attempts are used
up: the reaper finds it stale, or an execution of an earlier attempt fails. -/
def ReturnsExhausted (system : System) (m : ℕ) (id : String) (state : State) (action : Action) :
    Prop :=
  (∃ worker now later job, action = .reap worker now later ∧
    state.table.get? id = some job ∧
    stale (now.addSeconds (-system.staleThresholdSecs worker)) job = true ∧ m ≤ job.attempt) ∨
  ∃ execution outcome now later job, action = .finish execution outcome now later ∧
    execution.job.id = id ∧ outcome.isFailure = true ∧
    state.table.get? id = some job ∧ execution.job.attempt < m ∧ m ≤ job.attempt

/-- The job `id` belongs to the handler `name`, and a pending row of it has
attempts left. -/
structure Bounded (name id : String) (m : ℕ) (state : State) : Prop where
  named : ∀ job, state.table.get? id = some job → job.name = name
  row : ∀ job, state.table.get? id = some job → job.attempt ≤ m
  pending : ∀ job, state.table.get? id = some job → job.status = .pending → job.attempt < m
  started : ∀ execution ∈ state.started, execution.job.id = id →
    execution.maxAttempts = m ∧ 1 ≤ execution.job.attempt ∧ execution.job.attempt ≤ m

theorem bounded_initial (name id : String) (m : ℕ) : Bounded name id m initial :=
  ⟨by simp [initial], by simp [initial], by simp [initial], by simp [initial]⟩

/-- What a step that returns no exhausted row does to the row of the job. -/
theorem step_bounded_row {system : System} {name id : String} {m : ℕ} {state next : State}
    {action : Action} (hpos : 1 ≤ m) (hrecorded : Recorded state)
    (hbounded : Bounded name id m state)
    (hnamed : EnqueuedAs name id action) (hreturns : ¬ ReturnsExhausted system m id state action)
    (hstep : step system state action = some next) {job' : Job}
    (hget : next.table.get? id = some job') :
    job'.name = name ∧ job'.attempt ≤ m ∧ (job'.status = .pending → job'.attempt < m) := by
  have hrow := step_rowStep hstep id
  rw [hget] at hrow
  generalize hbefore : state.table.get? id = row at hrow
  -- every constructor but `insert` starts from a row that is bounded already
  have hold : ∀ job, row = some job → job.name = name ∧ job.attempt ≤ m := by
    rintro job rfl
    exact ⟨hbounded.named job hbefore, hbounded.row job hbefore⟩
  cases hrow with
  | same => exact ⟨(hold job' rfl).1, (hold job' rfl).2, hbounded.pending job' hbefore⟩
  | insert name' payload payloadHash options now hfresh =>
      exact ⟨hnamed name' payload payloadHash options now rfl, Nat.zero_le m, fun _ => hpos⟩
  | cancel job now hpending => exact ⟨(hold job rfl).1, (hold job rfl).2, nofun⟩
  | claim worker queue slots permits now chosen job hchosen hpending =>
      exact ⟨(hold job rfl).1, hbounded.pending job hbefore hpending, nofun⟩
  | complete execution now later job hlive hid => exact ⟨(hold job rfl).1, (hold job rfl).2, nofun⟩
  | die execution outcome message now later job hlive hid hfailed hlast =>
      exact ⟨(hold job rfl).1, (hold job rfl).2, nofun⟩
  | retry execution outcome message retryAt now later job hlive hid hfailed hleft =>
      refine ⟨(hold job rfl).1, (hold job rfl).2, fun _ => ?_⟩
      have hmax := (hbounded.started execution (hrecorded.live execution hlive) hid).1
      have hattempt : execution.job.attempt < m := hmax ▸ hleft
      by_contra hexhausted
      exact hreturns (Or.inr ⟨execution, outcome, now, later, job, rfl, hid, hfailed, hbefore,
        hattempt, Nat.not_lt.mp hexhausted⟩)
  | reap worker now later job hstale =>
      refine ⟨(hold job rfl).1, (hold job rfl).2, fun _ => ?_⟩
      by_contra hexhausted
      exact hreturns (Or.inl ⟨worker, now, later, job, rfl, hbefore, hstale,
        Nat.not_lt.mp hexhausted⟩)

theorem step_bounded {system : System} {name id : String} {m : ℕ} {state next : State}
    {action : Action} (hpos : 1 ≤ m) (hallows : AllowsAttempts system name m)
    (hrecorded : Recorded state) (hbounded : Bounded name id m state)
    (hnamed : EnqueuedAs name id action) (hreturns : ¬ ReturnsExhausted system m id state action)
    (hstep : step system state action = some next) : Bounded name id m next := by
  have hrow : ∀ job', next.table.get? id = some job' →
      job'.name = name ∧ job'.attempt ≤ m ∧ (job'.status = .pending → job'.attempt < m) :=
    fun _ hget => step_bounded_row hpos hrecorded hbounded hnamed hreturns hstep hget
  refine ⟨fun job hget => (hrow job hget).1, fun job hget => (hrow job hget).2.1,
    fun job hget => (hrow job hget).2.2, ?_⟩
  intro execution hmem hid
  rcases step_live hstep with ⟨worker, queue, slots, permits, now, chosen, rfl⟩ | ⟨hsame, -⟩
  · obtain ⟨hclaim, -, executions, -, hlog, hsublist, hspawned⟩ := step_claim hstep
    rw [hlog, List.mem_append] at hmem
    rcases hmem with hold | hnew
    · exact hbounded.started execution hold hid
    · obtain ⟨job, hjob, hclaimed⟩ := mem_claimed hsublist hnew
      obtain ⟨hget, hpending, -, -⟩ := (claim_chosen hclaim).2.2.2 job hjob
      have hjobId : job.id = id := by
        rw [← hid, hclaimed]
        rfl
      rw [hjobId] at hget
      have hlookup := (hspawned execution hnew).2
      rw [hclaimed, show (job.setRunning now).claimed.name = job.name from rfl,
        hbounded.named job hget] at hlookup
      refine ⟨hallows worker _ hlookup, ?_, ?_⟩
      · rw [hclaimed]
        exact Nat.le_add_left 1 job.attempt
      · rw [hclaimed]
        exact hbounded.pending job hget hpending
  · exact hbounded.started execution (hsame ▸ hmem) hid

/-- Executions of one job under growing attempt numbers from 1 to `m` are at
most `m`. -/
theorem length_le_of_attempts {executions : List Execution} {m : ℕ}
    (hincreasing : executions.Pairwise fun first second => first.job.attempt < second.job.attempt)
    (hrange : ∀ execution ∈ executions, 1 ≤ execution.job.attempt ∧ execution.job.attempt ≤ m) :
    executions.length ≤ m := by
  have hnodup : (executions.map fun execution => execution.job.attempt).Nodup := by
    rw [List.Nodup, List.pairwise_map]
    exact hincreasing.imp fun hlt => Nat.ne_of_lt hlt
  have hsubset : (executions.map fun execution => execution.job.attempt) ⊆ List.range' 1 m := by
    intro attempt hattempt
    obtain ⟨execution, hmem, rfl⟩ := List.mem_map.mp hattempt
    have := hrange execution hmem
    rw [List.mem_range'_1]
    omega
  calc executions.length
      = (executions.map fun execution => execution.job.attempt).length := by simp
    _ ≤ (List.range' 1 m).length := (hnodup.subperm hsubset).length_le
    _ = m := List.length_range'

/-- **The attempt bound.**  A job whose handler allows `m` attempts is started
at most `m` times in every run that returns none of its rows to pending with
its attempts used up. -/
theorem started_le_maxAttempts {system : System} {name id : String} {m : ℕ}
    {actions : List Action} {state : State} (hpos : 1 ≤ m)
    (hallows : AllowsAttempts system name m)
    (hnamed : ∀ action ∈ actions, EnqueuedAs name id action)
    (hreturns : ∀ before action after, Taken system initial actions before action after →
      ¬ ReturnsExhausted system m id before action)
    (hrun : run system initial actions = some state) :
    (state.started.filter fun execution => decide (execution.job.id = id)).length ≤ m := by
  have hinv : Recorded state ∧ Bounded name id m state := by
    refine Machine.run_invariant_of_allowed
      (fun state => Recorded state ∧ Bounded name id m state)
      (fun state action => EnqueuedAs name id action ∧ ¬ ReturnsExhausted system m id state action)
      ?_ ⟨recorded_initial, bounded_initial name id m⟩ ?_ hrun
    · rintro before action after ⟨hrecorded, hbounded⟩ ⟨hname, hreturn⟩ hstep
      exact ⟨step_recorded hrecorded hstep,
        step_bounded hpos hallows hrecorded hbounded hname hreturn hstep⟩
    · intro before action after htaken
      exact ⟨hnamed action htaken.mem, hreturns before action after htaken⟩
  have hincreasing := (run_numbered hrun).2.increasing
  apply length_le_of_attempts
  · refine (hincreasing.filter _).imp_of_mem ?_
    intro first second hfirst hsecond hlt
    rw [List.mem_filter, decide_eq_true_eq] at hfirst hsecond
    exact hlt (hfirst.2.trans hsecond.2.symm)
  · intro execution hmem
    rw [List.mem_filter, decide_eq_true_eq] at hmem
    exact (hinv.2.started execution hmem.1 hmem.2).2

theorem onceSystem_allowsAttempts : AllowsAttempts onceSystem "report" 1 := by
  intro worker options hlookup
  simp only [onceSystem, List.lookup_cons, beq_self_eq_true, Option.some.injEq] at hlookup
  exact hlookup ▸ rfl

/-- A job fails in its only attempt. -/
def failedRun : List Action :=
  [.enqueue "job" "report" "null" none { queue := "default" } (.ofSecs 1767225600),
   .claim 0 "default" 4 4 (.ofSecs 1767225601) [onceJob],
   .finish ⟨0, ⟨"job", "report", "default", "null", 1⟩, 1, 300⟩ (.err "failed")
     (.ofSecs 1767225602) (.ofSecs 1767225602)]

theorem failedRun_started_le : ∃ state, run onceSystem initial failedRun = some state ∧
    (state.started.filter fun execution => decide (execution.job.id = "job")).length ≤ 1 := by
  refine ⟨_, rfl, started_le_maxAttempts le_rfl onceSystem_allowsAttempts ?_ ?_
    (show run onceSystem initial failedRun = _ from rfl)⟩
  · intro action hmem name payload payloadHash options now heq
    subst heq
    simp only [failedRun, List.mem_cons, Action.enqueue.injEq, reduceCtorEq, List.not_mem_nil,
      or_false] at hmem
    exact hmem.2.1
  · intro before action after htaken hreturns
    have hmem := htaken.mem
    rcases hreturns with ⟨worker, now, later, job, rfl, -⟩ |
      ⟨execution, outcome, now, later, job, rfl, -, -, -, hattempt, -⟩
    · simp [failedRun] at hmem
    · simp only [failedRun, List.mem_cons, reduceCtorEq, Action.finish.injEq, List.not_mem_nil,
        or_false, false_or] at hmem
      simp [hmem.1] at hattempt

/-- A worker crash and a reap start a job with one attempt twice. -/
theorem crashRun_started_twice : AllowsAttempts onceSystem "report" 1 ∧
    (∀ action ∈ crashRun, EnqueuedAs "report" "job" action) ∧
    ∃ state, run onceSystem initial crashRun = some state ∧
      ¬ (state.started.filter fun execution => decide (execution.job.id = "job")).length ≤ 1 := by
  refine ⟨onceSystem_allowsAttempts, ?_, _, rfl, by decide⟩
  intro action hmem name payload payloadHash options now heq
  subst heq
  simp only [crashRun, List.mem_cons, Action.enqueue.injEq, reduceCtorEq, List.not_mem_nil,
    or_false] at hmem
  exact hmem.2.1

end Modo.Jobs
