import Modo.Job.Queue
import Mathlib.Logic.Function.Basic

/-!
# The tasks of one worker

`Worker` is a poll loop, a reaper loop, an optional cleanup loop, and the
executions the poll loop has spawned.  Here the poll loop is cut at its awaits:
it waits in `select!`, looks at one queue after the other, waits for the claim
it has sent with the number of permits it saw, and spawns the rows that come
back one by one.  Executions end, and release their permit, between any two of
these steps, and the table may change in any way while the loop does not look.

The rows of all successful claims, the executions spawned and the rows given up
are logged.  `Accounted` ties them together: permits and live executions of a
queue add up to its concurrency, a claim under way was sent for no more rows
than there are permits now, and so were the rows that wait to be spawned.  From
it follow the concurrency bound and that no claimed row is given up
(`concurrency_bound`).
-/

namespace Modo.Jobs.Worker

/-- `QueueConfig`. -/
structure QueueConfig where
  name : String := "default"
  concurrency : ℕ := 4
  deriving DecidableEq

/-- What `WorkerBuilder::start` is given. -/
structure Config where
  /-- The name of this worker among the workers of the table. -/
  worker : ℕ
  /-- Arithmetic overflow panics instead of wrapping. -/
  overflowChecks : Bool
  handlers : Handlers
  queues : List QueueConfig
  /-- A cleanup loop is configured. -/
  cleanup : Bool

/-- Where `poll_loop` is.  `now` is the instant of the tick. -/
inductive Poll where
  /-- In `select!`, between two ticks. -/
  | select
  /-- At the head of the loop over the queues. -/
  | queue (now : DateTime) (index : ℕ)
  /-- A claim with `LIMIT slots` is under way. -/
  | claiming (now : DateTime) (index slots : ℕ)
  /-- The rows of the claim that wait to be spawned. -/
  | dispatching (now : DateTime) (index : ℕ) (rest : List ClaimedJob)
  /-- Out of the loop. -/
  | exited
  deriving DecidableEq

/-- The claimed rows that wait to be spawned. -/
def Poll.waiting : Poll → List ClaimedJob
  | dispatching _ _ rest => rest
  | _ => []

/-- How far `shutdown` is. -/
inductive Shutdown where
  | notCalled
  | draining
  /-- Returned because the awaited tasks have ended. -/
  | drained
  /-- Returned because the drain timeout elapsed. -/
  | timedOut
  deriving DecidableEq

/-- A spawned execution with the permit it holds, of the semaphore at `index`. -/
structure Running where
  index : ℕ
  execution : Execution
  deriving DecidableEq

/-- The tasks of a worker, the table they share with others, and the logs. -/
structure State where
  table : JobTable
  /-- The available permits of each queue's semaphore. -/
  permits : ℕ → ℕ
  poll : Poll
  live : List Running
  shutdown : Shutdown
  reaperExited : Bool
  cleanupExited : Bool
  /-- The rows of all successful claims. -/
  claimed : List ClaimedJob
  /-- The executions spawned. -/
  spawned : List Execution
  /-- The rows skipped without handler or without permit. -/
  abandoned : List ClaimedJob

/-- `WorkerBuilder::start`. -/
def start (config : Config) (table : JobTable) : State where
  table := table
  permits index := (config.queues[index]?).elim 0 QueueConfig.concurrency
  poll := .select
  live := []
  shutdown := .notCalled
  reaperExited := false
  cleanupExited := !config.cleanup
  claimed := []
  spawned := []
  abandoned := []

/-- The steps of the worker and of its surroundings. -/
inductive Action where
  /-- Anybody else changes the table. -/
  | environment (table : JobTable)
  /-- The poll interval has elapsed. -/
  | tick (now : DateTime)
  /-- The poll loop looks at its next queue. -/
  | look
  /-- The claim comes back, with the rows it took or with an error. -/
  | receive (answer : Option (List Job))
  /-- The poll loop takes up the next claimed row. -/
  | dispatch
  /-- An execution ends. -/
  | finish (running : Running) (outcome : Outcome) (now later : DateTime)
  /-- `shutdown` is called. -/
  | shutdown
  /-- The loops see the cancelled token. -/
  | exitPoll
  | exitReaper
  | exitCleanup
  /-- `shutdown` returns. -/
  | drained
  | timedOut

/-- The head of the loop over the queues: a queue without permits is skipped. -/
def look (config : Config) (state : State) : Option State :=
  match state.poll with
  | .queue now index =>
      some { state with
        poll :=
          match config.queues[index]? with
          | none => .select
          | some _ =>
              if state.permits index = 0 then .queue now (index + 1)
              else .claiming now index (state.permits index) }
  | _ => none

/-- The claim comes back.  On an error, of the statement or of reading a row,
the loop goes on with the next queue. -/
def receive (config : Config) (state : State) (answer : Option (List Job)) : Option State :=
  match state.poll with
  | .claiming now index slots =>
      match answer, config.queues[index]? with
      | some chosen, some queue =>
          match claim config.handlers queue.name slots now chosen state.table with
          | none => none
          | some (table, rows) =>
              match rows.mapM ClaimedJob.ofRow with
              | none => some { state with table := table, poll := .queue now (index + 1) }
              | some jobs =>
                  some { state with
                    table := table, poll := .dispatching now index jobs,
                    claimed := state.claimed ++ jobs }
      | none, _ => some { state with poll := .queue now (index + 1) }
      | some _, none => none
  | _ => none

/-- One turn of the loop over the claimed rows. -/
def dispatchNext (config : Config) (state : State) : Option State :=
  match state.poll with
  | .dispatching now index [] => some { state with poll := .queue now (index + 1) }
  | .dispatching now index (job :: rest) =>
      match dispatchOne config.worker config.handlers (state.permits index) job with
      | .noHandler =>
          some { state with
            poll := .dispatching now index rest, abandoned := state.abandoned ++ [job] }
      | .noPermit =>
          some { state with
            poll := .queue now (index + 1), abandoned := state.abandoned ++ job :: rest }
      | .spawned execution =>
          some { state with
            permits := Function.update state.permits index (state.permits index - 1),
            poll := .dispatching now index rest,
            live := state.live ++ [⟨index, execution⟩],
            spawned := state.spawned ++ [execution] }
  | _ => none

/-- One step.  When a tick and the cancellation are both ready, `select!` may
take either. -/
def step (config : Config) (state : State) : Action → Option State
  | .environment table => some { state with table := table }
  | .tick now =>
      if state.poll = .select then
        some { state with poll := if config.handlers = [] then .select else .queue now 0 }
      else none
  | .look => look config state
  | .receive answer => receive config state answer
  | .dispatch => dispatchNext config state
  | .finish running outcome now later =>
      if running ∈ state.live then
        some { state with
          table := finish config.overflowChecks running.execution outcome now later state.table,
          permits := Function.update state.permits running.index (state.permits running.index + 1),
          live := state.live.erase running }
      else none
  | .shutdown =>
      if state.shutdown = .notCalled then some { state with shutdown := .draining } else none
  | .exitPoll =>
      if state.poll = .select ∧ state.shutdown ≠ .notCalled then
        some { state with poll := .exited }
      else none
  | .exitReaper =>
      if state.shutdown ≠ .notCalled then some { state with reaperExited := true } else none
  | .exitCleanup =>
      if state.shutdown ≠ .notCalled then some { state with cleanupExited := true } else none
  | .drained =>
      if state.shutdown = .draining ∧ state.poll = .exited ∧ state.reaperExited = true ∧
          state.cleanupExited = true then
        some { state with shutdown := .drained }
      else none
  | .timedOut =>
      if state.shutdown = .draining then some { state with shutdown := .timedOut } else none

/-- Play a list of actions. -/
abbrev run (config : Config) : State → List Action → Option State := Machine.run (step config)

/-- One step of a run. -/
abbrev Taken (config : Config) : State → List Action → State → Action → State → Prop :=
  Machine.Taken (step config)

/-! ## Permits -/

/-- The live executions that hold a permit of the semaphore at `index`. -/
def State.holders (state : State) (index : ℕ) : ℕ :=
  state.live.countP fun running => decide (running.index = index)

/-- What the place of the poll loop promises about permits and rows. -/
def Poll.Covered (config : Config) (permits : ℕ → ℕ) : Poll → Prop
  | claiming _ index slots => slots ≤ permits index
  | dispatching _ index rest => rest.length ≤ permits index ∧
      ∃ queue, config.queues[index]? = some queue ∧
        ∀ job ∈ rest, job.queue = queue.name ∧ (config.handlers.lookup job.name).isSome
  | _ => True

/-- Permits, live executions and claimed rows add up. -/
structure Accounted (config : Config) (state : State) : Prop where
  /-- Every permit of a queue is available or held by a live execution. -/
  permits : ∀ index queue, config.queues[index]? = some queue →
    state.permits index + state.holders index = queue.concurrency
  /-- A live execution holds a permit of its job's queue. -/
  queue : ∀ running ∈ state.live, ∃ queue, config.queues[running.index]? = some queue ∧
    running.execution.job.queue = queue.name
  /-- The loop has a permit for every row it has claimed or will claim. -/
  covered : state.poll.Covered config state.permits
  /-- Every claimed row has been spawned or waits for it. -/
  claimed : state.claimed = state.spawned.map Execution.job ++ state.poll.waiting
  abandoned : state.abandoned = []

theorem accounted_start (config : Config) (table : JobTable) :
    Accounted config (start config table) where
  permits index queue hqueue := by simp [start, State.holders, hqueue]
  queue := by simp [start]
  covered := trivial
  claimed := rfl
  abandoned := rfl

/-- Moving the poll loop to another place where nothing else waits. -/
theorem Accounted.setPoll {config : Config} {state : State} (haccounted : Accounted config state)
    {poll : Poll} (hcovered : poll.Covered config state.permits)
    (hwaiting : poll.waiting = state.poll.waiting) :
    Accounted config { state with poll := poll } where
  permits := haccounted.permits
  queue := haccounted.queue
  covered := hcovered
  claimed := by
    rw [hwaiting]
    exact haccounted.claimed
  abandoned := haccounted.abandoned

theorem look_accounted {config : Config} {state next : State}
    (haccounted : Accounted config state) (hlook : look config state = some next) :
    Accounted config next := by
  unfold look at hlook
  cases hpoll : state.poll with
  | queue now index =>
      rw [hpoll, Option.some.injEq] at hlook
      subst hlook
      have hwaiting : state.poll.waiting = [] := by rw [hpoll]; rfl
      apply haccounted.setPoll
      · split
        · exact trivial
        · split
          · exact trivial
          · exact le_rfl
      · rw [hwaiting]
        split
        · rfl
        · split <;> rfl
  | select => simp [hpoll] at hlook
  | claiming now index slots => simp [hpoll] at hlook
  | dispatching now index rest => simp [hpoll] at hlook
  | exited => simp [hpoll] at hlook

/-- The rows a claim brings back: no more than it was sent for, all of its
queue and all with a handler. -/
theorem claimed_rows {handlers : Handlers} {queue : String} {slots : ℕ} {now : DateTime}
    {chosen rows : List Job} {table table' : JobTable} {jobs : List ClaimedJob}
    (hclaim : claim handlers queue slots now chosen table = some (table', rows))
    (hjobs : rows.mapM ClaimedJob.ofRow = some jobs) :
    jobs.length ≤ slots ∧ ∀ job ∈ jobs, job.queue = queue ∧ (handlers.lookup job.name).isSome := by
  obtain ⟨hrows, hlength, -, hchosen⟩ := claim_chosen hclaim
  rw [mapM_ofRow hjobs, hrows]
  refine ⟨by simpa using hlength, ?_⟩
  intro job hjob
  obtain ⟨row, hrow, rfl⟩ := List.mem_map.mp hjob
  obtain ⟨old, hold, rfl⟩ := List.mem_map.mp hrow
  obtain ⟨-, -, hqueue, hname⟩ := hchosen old hold
  refine ⟨hqueue, ?_⟩
  obtain ⟨entry, hentry, heq⟩ := List.mem_map.mp hname
  rw [List.lookup_isSome_iff]
  exact ⟨entry, hentry, beq_iff_eq.mpr heq.symm⟩

theorem receive_accounted {config : Config} {state next : State} {answer : Option (List Job)}
    (haccounted : Accounted config state) (hreceive : receive config state answer = some next) :
    Accounted config next := by
  unfold receive at hreceive
  split at hreceive
  · rename_i now index slots hpoll
    have hslots : slots ≤ state.permits index := by
      have hcovered := haccounted.covered
      rwa [hpoll] at hcovered
    have hnone : state.poll.waiting = [] := by rw [hpoll]; rfl
    have hclaimed : state.claimed = state.spawned.map Execution.job := by
      rw [haccounted.claimed, hnone, List.append_nil]
    split at hreceive
    · rename_i chosen queue hqueue
      split at hreceive
      · cases hreceive
      · rename_i table rows hclaim
        split at hreceive
        · rw [Option.some.injEq] at hreceive
          subst hreceive
          refine ⟨haccounted.permits, haccounted.queue, trivial, ?_, haccounted.abandoned⟩
          simp only [Poll.waiting, hclaimed, List.append_nil]
        · rename_i jobs hjobs
          rw [Option.some.injEq] at hreceive
          subst hreceive
          obtain ⟨hlength, hrows⟩ := claimed_rows hclaim hjobs
          refine ⟨haccounted.permits, haccounted.queue, ?_, ?_, haccounted.abandoned⟩
          · exact ⟨Nat.le_trans hlength hslots, queue, hqueue, hrows⟩
          · simp only [Poll.waiting, hclaimed]
    · rw [Option.some.injEq] at hreceive
      subst hreceive
      exact haccounted.setPoll trivial hnone.symm
    · cases hreceive
  · cases hreceive

/-- A row of a registered handler is spawned when a permit is available. -/
theorem dispatchOne_spawned (worker : ℕ) {handlers : Handlers} {permits : ℕ} {job : ClaimedJob}
    (hpermit : 0 < permits) (hhandler : (handlers.lookup job.name).isSome) :
    ∃ execution, dispatchOne worker handlers permits job = .spawned execution ∧
      execution.job = job := by
  obtain ⟨options, hoptions⟩ := Option.isSome_iff_exists.mp hhandler
  obtain ⟨permits, rfl⟩ := Nat.exists_eq_add_of_lt hpermit
  rw [Nat.zero_add]
  refine ⟨⟨worker, job, options.maxAttempts, options.timeoutSecs⟩, ?_, rfl⟩
  simp [dispatchOne, hoptions]

/-- The next claimed row is spawned with a permit of its own. -/
theorem dispatchNext_accounted {config : Config} {state next : State}
    (haccounted : Accounted config state) (hdispatch : dispatchNext config state = some next) :
    Accounted config next := by
  have hcovered := haccounted.covered
  have hclaimed := haccounted.claimed
  unfold dispatchNext at hdispatch
  split at hdispatch
  · rename_i now index hpoll
    rw [Option.some.injEq] at hdispatch
    subst hdispatch
    exact haccounted.setPoll trivial (by rw [hpoll]; rfl)
  · rename_i now index job rest hpoll
    rw [hpoll] at hcovered hclaimed
    obtain ⟨hlength, queue, hqueue, hrows⟩ := hcovered
    obtain ⟨hjob, hhandler⟩ := hrows job List.mem_cons_self
    -- the claim took no more rows than there were permits
    have hpermit : 0 < state.permits index := by
      rw [List.length_cons] at hlength
      omega
    obtain ⟨execution, hspawned, hexecution⟩ :=
      dispatchOne_spawned config.worker hpermit hhandler
    rw [hspawned] at hdispatch
    simp only [Option.some.injEq] at hdispatch
    subst hdispatch
    refine ⟨?_, ?_, ?_, ?_, haccounted.abandoned⟩
    · intro other queue' hqueue'
      have hbefore := haccounted.permits other queue' hqueue'
      -- the permit moves from the free ones to the execution
      by_cases hsame : other = index
      · subst hsame
        simp only [State.holders, Function.update_self, List.countP_append,
          List.countP_singleton, decide_true, if_true] at hbefore ⊢
        omega
      · simp only [State.holders, Function.update_of_ne hsame, List.countP_append,
          List.countP_singleton] at hbefore ⊢
        simpa [Ne.symm hsame] using hbefore
    · intro running hrunning
      rw [List.mem_append, List.mem_singleton] at hrunning
      rcases hrunning with hold | rfl
      · exact haccounted.queue running hold
      · exact ⟨queue, hqueue, hexecution ▸ hjob⟩
    · refine ⟨?_, queue, hqueue, fun job' hjob' => hrows job' (List.mem_cons_of_mem _ hjob')⟩
      simp only [Function.update_self]
      rw [List.length_cons] at hlength
      omega
    · simp only [Poll.waiting] at hclaimed ⊢
      rw [hclaimed, List.map_append, List.map_singleton, hexecution, List.append_assoc,
        List.singleton_append]
  · cases hdispatch

theorem finish_accounted {config : Config} {state : State} {running : Running}
    (haccounted : Accounted config state) (hlive : running ∈ state.live) (table : JobTable) :
    Accounted config { state with
      table := table,
      permits := Function.update state.permits running.index (state.permits running.index + 1),
      live := state.live.erase running } := by
  -- a released permit covers whatever was covered before
  have hmore : ∀ index, state.permits index ≤
      Function.update state.permits running.index (state.permits running.index + 1) index := by
    intro index
    by_cases hsame : index = running.index
    · subst hsame
      rw [Function.update_self]
      omega
    · rw [Function.update_of_ne hsame]
  refine ⟨?_, ?_, ?_, haccounted.claimed, haccounted.abandoned⟩
  · intro index queue hqueue
    have hbefore := haccounted.permits index queue hqueue
    have hcount := (List.perm_cons_erase hlive).countP_eq fun other => decide (other.index = index)
    simp only [State.holders, hcount, List.countP_cons] at hbefore ⊢
    by_cases hsame : running.index = index
    · subst hsame
      simp only [Function.update_self, decide_true, if_true] at hbefore ⊢
      omega
    · simp only [Function.update_of_ne (Ne.symm hsame)]
      simpa [hsame] using hbefore
  · intro other hother
    exact haccounted.queue other (List.mem_of_mem_erase hother)
  · have hcovered := haccounted.covered
    cases hpoll : state.poll with
    | claiming now index slots =>
        rw [hpoll] at hcovered
        exact Nat.le_trans hcovered (hmore index)
    | dispatching now index rest =>
        rw [hpoll] at hcovered
        exact ⟨Nat.le_trans hcovered.1 (hmore index), hcovered.2⟩
    | select => trivial
    | queue now index => trivial
    | exited => trivial

theorem step_accounted {config : Config} {state next : State} {action : Action}
    (haccounted : Accounted config state) (hstep : step config state action = some next) :
    Accounted config next := by
  -- the actions that touch neither permits nor rows keep every field as it is
  have hkeep := haccounted
  obtain ⟨hpermits, hqueue, hcovered, hclaimed, habandoned⟩ := hkeep
  cases action with
  | environment table =>
      simp only [step, Option.some.injEq] at hstep
      subst hstep
      exact ⟨hpermits, hqueue, hcovered, hclaimed, habandoned⟩
  | tick now =>
      simp only [step] at hstep
      split at hstep
      · rename_i hselect
        rw [Option.some.injEq] at hstep
        subst hstep
        apply haccounted.setPoll
        · split <;> exact trivial
        · rw [hselect]
          split <;> rfl
      · cases hstep
  | look => exact look_accounted haccounted hstep
  | receive answer => exact receive_accounted haccounted hstep
  | dispatch => exact dispatchNext_accounted haccounted hstep
  | finish running outcome now later =>
      simp only [step] at hstep
      split at hstep
      · rename_i hlive
        rw [Option.some.injEq] at hstep
        subst hstep
        exact finish_accounted haccounted hlive _
      · cases hstep
  | exitPoll =>
      simp only [step] at hstep
      split at hstep
      · rename_i hselect
        rw [Option.some.injEq] at hstep
        subst hstep
        exact haccounted.setPoll trivial (by rw [hselect.1]; rfl)
      · cases hstep
  | shutdown | exitReaper | exitCleanup | drained | timedOut =>
      simp only [step] at hstep
      split at hstep
      · rw [Option.some.injEq] at hstep
        subst hstep
        exact ⟨hpermits, hqueue, hcovered, hclaimed, habandoned⟩
      · cases hstep

/-- Permits and rows add up in every reachable state. -/
theorem run_accounted {config : Config} {table : JobTable} {actions : List Action} {state : State}
    (hrun : run config (start config table) actions = some state) : Accounted config state :=
  Machine.run_invariant (Accounted config) (fun _ _ _ => step_accounted)
    (accounted_start config table) hrun

/-- With distinct queue names the executions of a queue's jobs are the ones that
hold its permits. -/
theorem Accounted.queue_le_holders {config : Config} {state : State}
    (haccounted : Accounted config state) (hnames : (config.queues.map QueueConfig.name).Nodup)
    {index : ℕ} {queue : QueueConfig} (hqueue : config.queues[index]? = some queue) :
    (state.live.countP fun running => decide (running.execution.job.queue = queue.name)) ≤
      state.holders index := by
  apply List.countP_mono_left
  intro running hrunning hname
  rw [decide_eq_true_eq] at hname ⊢
  obtain ⟨other, hother, hjob⟩ := haccounted.queue running hrunning
  have hlength : running.index < (config.queues.map QueueConfig.name).length := by
    rw [List.length_map]
    exact (List.getElem?_eq_some_iff.mp hother).1
  apply (List.getElem?_inj hlength hnames).mp
  rw [List.getElem?_map, List.getElem?_map, hother, hqueue, Option.map_some, Option.map_some,
    ← hjob, hname]

/-- A worker of one queue with two slots. -/
def oneQueue : Config where
  worker := 0
  overflowChecks := false
  handlers := [("report", ⟨3, 300⟩)]
  queues := [{ name := "default", concurrency := 2 }]
  cleanup := true

/-- A pending job. -/
def pendingJob : Job :=
  newJob "job" "report" "null" none { queue := "default" } (.ofSecs 1767225600)

/-- The table with one pending job. -/
def pendingTable : JobTable := (Table.empty.insert pendingJob).getD Table.empty

/-- The loop claims the job, spawns it and goes back to waiting. -/
def spawnRun : List Action :=
  [.tick (.ofSecs 1767225601), .look, .receive (some [pendingJob]), .dispatch, .dispatch, .look]

end Modo.Jobs.Worker
