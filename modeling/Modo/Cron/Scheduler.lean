import Modo.Lib.Machine
import Modo.Time

/-!
# The loop of a cron entry

`cron_job_loop` sleeps until the next tick of the schedule and then spawns the
handler as a task, unless the flag `running` says that the previous one is still
going.  The loop sets the flag before it spawns the task; the task clears it as the
last thing it does.  When the entry is cancelled, or the schedule has no further
tick, the loop waits for all its tasks and returns.

A run interleaves the steps of the loop with those of its tasks.  How long the loop
sleeps and a handler takes is left open.

The flag is like a token: it is held by the loop between setting the flag and
spawning the task, or by the one live task, or it is lost with a task that unwinds
from a panic (`Token`).  So executions never overlap (`executions_drained`), and a tick
is skipped without a live execution exactly when an earlier one has panicked
(`not_stuck_iff`).
-/

namespace Modo.Cron

open DateTime (ofSecs)

/-! ## The loop and its tasks -/

/-- A registered job; `schedule` is its `next_tick`. -/
structure CronEntry where
  name : String
  schedule : DateTime → Option DateTime
  timeoutSecs : ℕ

/-- What a handler is told about its execution; instants are seconds. -/
structure Meta where
  name : String
  deadline : ℕ
  tick : DateTime
  deriving DecidableEq

/-- How an execution ends, unless it panics. -/
inductive Outcome where
  | completed
  | failed
  | timedOut
  deriving DecidableEq

/-- Where a spawned task stands. -/
inductive Status where
  /-- The handler is running, under its timeout. -/
  | executing
  /-- The handler is over, and the flag is about to be cleared. -/
  | clearing (outcome : Outcome)
  | finished
  /-- The task has unwound. -/
  | panicked
  deriving DecidableEq

structure Task where
  number : ℕ
  context : Meta
  status : Status
  deriving DecidableEq

def Task.isLive (task : Task) : Bool :=
  match task.status with
  | .executing | .clearing _ => true
  | .finished | .panicked => false

/-- Where the loop stands. -/
inductive Phase where
  | created
  | sleeping
  /-- The tick is due; before finished tasks are reaped. -/
  | woken
  /-- Before the flag is read. -/
  | reaped
  /-- The flag was clear; before it is set. -/
  | starting
  /-- The flag is set; before the task is spawned. -/
  | claimed
  /-- Before the next tick is computed, after a spawned or a skipped execution. -/
  | rescheduling
  | draining
  | returned
  /-- The deadline does not fit an `Instant`. -/
  | panicked
  deriving DecidableEq

structure State where
  phase : Phase
  cancelled : Bool
  running : Bool
  nextTick : DateTime
  /-- The tasks that have not been joined. -/
  tasks : List Task
  spawned : ℕ
  /-- Whether an execution has panicked. -/
  unwound : Bool

def State.initial : State := ⟨.created, false, false, ofSecs 0, [], 0, false⟩

inductive Action where
  /-- The first tick is computed. -/
  | begin (now : DateTime)
  /-- The cancellation token is cancelled. -/
  | cancel
  /-- The sleeping loop sees the cancellation. -/
  | stop
  /-- The sleep is over. -/
  | wake
  | reap
  | load
  | store
  | spawn (now : ℕ)
  | reschedule (now : DateTime)
  /-- A task that is over is joined at the end. -/
  | join (task : Task)
  /-- No task is left. -/
  | exit
  /-- The handler of a task returns, or runs into its timeout. -/
  | finish (task : Task) (outcome : Outcome)
  /-- A task clears the flag. -/
  | clear (task : Task) (outcome : Outcome)
  /-- The handler of a task panics. -/
  | panic (task : Task)

/-- The largest `Instant`, in seconds. -/
def instantMax : ℕ := 2 ^ 63 - 1

/-- The next tick is computed, and the loop sleeps or stops. -/
def State.reschedule (entry : CronEntry) (now : DateTime) (stopped : Phase) (state : State) :
    State :=
  match entry.schedule now with
  | some tick => { state with phase := .sleeping, nextTick := tick }
  | none => { state with phase := stopped }

/-- A task moves on. -/
def State.setStatus (task : Task) (status : Status) (state : State) : State :=
  { state with tasks := { task with status := status } :: state.tasks.erase task }

def step (entry : CronEntry) (state : State) : Action → Option State
  | .begin now =>
      if state.phase = .created then some (state.reschedule entry now .returned) else none
  | .cancel => some { state with cancelled := true }
  | .stop =>
      if state.phase = .sleeping ∧ state.cancelled = true then
        some { state with phase := .draining }
      else none
  | .wake => if state.phase = .sleeping then some { state with phase := .woken } else none
  | .reap =>
      if state.phase = .woken then
        some { state with phase := .reaped, tasks := state.tasks.filter Task.isLive }
      else none
  | .load =>
      if state.phase = .reaped then
        some { state with phase := if state.running then .rescheduling else .starting }
      else none
  | .store =>
      if state.phase = .starting then some { state with phase := .claimed, running := true }
      else none
  | .spawn now =>
      if state.phase = .claimed then
        let deadline := now + entry.timeoutSecs
        if deadline ≤ instantMax then
          let context := ⟨entry.name, deadline, state.nextTick⟩
          some { state with
            phase := .rescheduling
            tasks := ⟨state.spawned, context, .executing⟩ :: state.tasks
            spawned := state.spawned + 1 }
        else some { state with phase := .panicked }
      else none
  | .reschedule now =>
      if state.phase = .rescheduling then some (state.reschedule entry now .draining) else none
  | .join task =>
      if state.phase = .draining ∧ task ∈ state.tasks ∧ task.isLive = false then
        some { state with tasks := state.tasks.erase task }
      else none
  | .exit =>
      if state.phase = .draining ∧ state.tasks = [] then some { state with phase := .returned }
      else none
  | .finish task outcome =>
      if task ∈ state.tasks ∧ task.status = .executing then
        some (state.setStatus task (.clearing outcome))
      else none
  | .clear task outcome =>
      if task ∈ state.tasks ∧ task.status = .clearing outcome then
        some { state.setStatus task .finished with running := false }
      else none
  | .panic task =>
      if task ∈ state.tasks ∧ task.status = .executing then
        some { state.setStatus task .panicked with unwound := true }
      else none

/-! ## The token -/

/-- The number of live executions. -/
def State.live (state : State) : ℕ := state.tasks.countP Task.isLive

/-- The loop has set the flag and not spawned the task. -/
def Phase.holds : Phase → Bool
  | .claimed | .panicked => true
  | _ => false

/-- When the flag is set, the loop, one live task or a task that has unwound has it. -/
structure Token (state : State) : Prop where
  held : state.live + state.phase.holds.toNat + state.unwound.toNat = state.running.toNat
  clear : state.phase = .starting → state.running = false

/-- The loop has not begun, or has returned. -/
def Phase.idle : Phase → Bool
  | .created | .returned => true
  | _ => false

/-- Before its first tick and after its return the loop has no tasks. -/
def Drained (state : State) : Prop := state.phase.idle = true → state.tasks = []

theorem live_le_one {state : State} (htoken : Token state) : state.live ≤ 1 := by
  have hheld := htoken.held
  have hbound := Bool.toNat_le state.running
  omega

theorem live_pos_iff {state : State} :
    0 < state.live ↔ ∃ task ∈ state.tasks, task.isLive = true := List.countP_pos_iff

/-- What is over does not count. -/
theorem live_erase {tasks : List Task} {task : Task} (hover : task.isLive = false) :
    (tasks.erase task).countP Task.isLive = tasks.countP Task.isLive := by
  rw [List.countP_erase]
  simp [hover]

theorem live_filter (tasks : List Task) :
    (tasks.filter Task.isLive).countP Task.isLive = tasks.countP Task.isLive := by
  rw [List.countP_filter]
  simp

/-- A live task that moves on. -/
theorem live_setStatus {state : State} {task : Task} (hmem : task ∈ state.tasks)
    (hlive : task.isLive = true) (status : Status) :
    (state.setStatus task status).live + 1 =
      state.live + ({ task with status := status } : Task).isLive.toNat := by
  have hpos : 0 < state.tasks.countP Task.isLive := List.countP_pos_iff.mpr ⟨task, hmem, hlive⟩
  unfold State.live State.setStatus
  rw [List.countP_cons, List.countP_erase]
  simp only [hmem, hlive, and_self, if_true]
  cases ({ task with status := status } : Task).isLive <;> simp <;> omega

section Step

variable {entry : CronEntry} {state next : State}

/-- The loop moves on without touching the flag or the live tasks. -/
theorem Token.moveOn (htoken : Token state) (hlive : next.live = state.live)
    (hunwound : next.unwound = state.unwound) (hrunning : next.running = state.running)
    (hholds : next.phase.holds = state.phase.holds)
    (hclear : next.phase = .starting → state.running = false) : Token next := by
  constructor
  · rw [hlive, hunwound, hrunning, hholds]
    exact htoken.held
  · rw [hrunning]
    exact hclear

theorem token_reschedule (htoken : Token state) {stopped : Phase}
    (hphase : state.phase.holds = false) (hstopped : stopped.holds = false)
    (hstarting : stopped ≠ .starting) (now : DateTime) :
    Token (state.reschedule entry now stopped) := by
  unfold State.reschedule
  split
  · exact htoken.moveOn rfl rfl rfl hphase.symm (fun h => by cases h)
  · exact htoken.moveOn rfl rfl rfl (hstopped.trans hphase.symm) (fun h => absurd h hstarting)

/-- With a live task the flag is set, and the loop is not about to set it. -/
theorem Token.of_live (htoken : Token state) {task : Task} (hmem : task ∈ state.tasks)
    (hlive : task.isLive = true) :
    state.live = 1 ∧ state.phase.holds = false ∧ state.unwound = false ∧
      state.running = true := by
  have hheld := htoken.held
  have hpos : 0 < state.live := live_pos_iff.mpr ⟨task, hmem, hlive⟩
  have hbound := Bool.toNat_le state.running
  refine ⟨by omega, ?_, ?_, ?_⟩
  · rw [← Bool.toNat_eq_zero]
    omega
  · rw [← Bool.toNat_eq_zero]
    omega
  · rw [← Bool.toNat_eq_one]
    omega

theorem step_token (htoken : Token state) {action : Action}
    (hstep : step entry state action = some next) : Token next := by
  cases action with
  | begin now =>
      simp only [step, Option.ite_none_right_eq_some, Option.some.injEq] at hstep
      obtain ⟨hphase, rfl⟩ := hstep
      exact token_reschedule htoken (by rw [hphase]; rfl) rfl (by decide) now
  | cancel =>
      simp only [step, Option.some.injEq] at hstep
      subst hstep
      exact ⟨htoken.held, htoken.clear⟩
  | stop =>
      simp only [step, Option.ite_none_right_eq_some, Option.some.injEq] at hstep
      obtain ⟨⟨hphase, -⟩, rfl⟩ := hstep
      exact htoken.moveOn rfl rfl rfl (by rw [hphase]; rfl) (fun h => by cases h)
  | wake =>
      simp only [step, Option.ite_none_right_eq_some, Option.some.injEq] at hstep
      obtain ⟨hphase, rfl⟩ := hstep
      exact htoken.moveOn rfl rfl rfl (by rw [hphase]; rfl) (fun h => by cases h)
  | reap =>
      simp only [step, Option.ite_none_right_eq_some, Option.some.injEq] at hstep
      obtain ⟨hphase, rfl⟩ := hstep
      exact htoken.moveOn (live_filter state.tasks) rfl rfl (by rw [hphase]; rfl)
        (fun h => by cases h)
  | load =>
      simp only [step, Option.ite_none_right_eq_some, Option.some.injEq] at hstep
      obtain ⟨hphase, rfl⟩ := hstep
      by_cases hrunning : state.running = true
      · rw [if_pos hrunning]
        exact htoken.moveOn rfl rfl rfl (by rw [hphase]; rfl) (fun h => by cases h)
      · rw [if_neg hrunning]
        exact htoken.moveOn rfl rfl rfl (by rw [hphase]; rfl)
          (fun _ => Bool.eq_false_of_not_eq_true hrunning)
  | store =>
      simp only [step, Option.ite_none_right_eq_some, Option.some.injEq] at hstep
      obtain ⟨hphase, rfl⟩ := hstep
      have hheld := htoken.held
      rw [htoken.clear hphase, hphase] at hheld
      refine ⟨?_, fun h => by cases h⟩
      show state.live + 1 + state.unwound.toNat = 1
      simp only [Phase.holds, Bool.toNat_false] at hheld
      omega
  | spawn now =>
      simp only [step, Option.ite_none_right_eq_some] at hstep
      obtain ⟨hphase, hstep⟩ := hstep
      have hheld := htoken.held
      rw [hphase] at hheld
      split at hstep
      · rw [Option.some.injEq] at hstep
        subst hstep
        refine ⟨?_, fun h => by cases h⟩
        -- the new task takes over from the loop
        rw [State.live, List.countP_cons_of_pos rfl]
        exact hheld
      · rw [Option.some.injEq] at hstep
        subst hstep
        exact ⟨hheld, fun h => by cases h⟩
  | reschedule now =>
      simp only [step, Option.ite_none_right_eq_some, Option.some.injEq] at hstep
      obtain ⟨hphase, rfl⟩ := hstep
      exact token_reschedule htoken (by rw [hphase]; rfl) rfl (by decide) now
  | join task =>
      simp only [step, Option.ite_none_right_eq_some, Option.some.injEq] at hstep
      obtain ⟨⟨hphase, -, hover⟩, rfl⟩ := hstep
      exact htoken.moveOn (live_erase hover) rfl rfl rfl htoken.clear
  | exit =>
      simp only [step, Option.ite_none_right_eq_some, Option.some.injEq] at hstep
      obtain ⟨⟨hphase, -⟩, rfl⟩ := hstep
      exact htoken.moveOn rfl rfl rfl (by rw [hphase]; rfl) (fun h => by cases h)
  | finish task outcome =>
      simp only [step, Option.ite_none_right_eq_some, Option.some.injEq] at hstep
      obtain ⟨⟨hmem, hstatus⟩, rfl⟩ := hstep
      have hlive : task.isLive = true := by rw [Task.isLive, hstatus]
      have hcount := live_setStatus hmem hlive (.clearing outcome)
      exact htoken.moveOn (Nat.succ.inj hcount) rfl rfl rfl htoken.clear
  | clear task outcome =>
      simp only [step, Option.ite_none_right_eq_some, Option.some.injEq] at hstep
      obtain ⟨⟨hmem, hstatus⟩, rfl⟩ := hstep
      have hlive : task.isLive = true := by rw [Task.isLive, hstatus]
      obtain ⟨hone, hholds, hunwound, -⟩ := htoken.of_live hmem hlive
      have hcount := live_setStatus hmem hlive .finished
      rw [hone] at hcount
      refine ⟨?_, fun _ => rfl⟩
      show (state.setStatus task .finished).live + state.phase.holds.toNat +
        state.unwound.toNat = 0
      rw [Nat.succ.inj hcount, hholds, hunwound]
      rfl
  | panic task =>
      simp only [step, Option.ite_none_right_eq_some, Option.some.injEq] at hstep
      obtain ⟨⟨hmem, hstatus⟩, rfl⟩ := hstep
      have hlive : task.isLive = true := by rw [Task.isLive, hstatus]
      obtain ⟨hone, hholds, -, hrunning⟩ := htoken.of_live hmem hlive
      have hcount := live_setStatus hmem hlive .panicked
      rw [hone] at hcount
      refine ⟨?_, htoken.clear⟩
      show (state.setStatus task .panicked).live + state.phase.holds.toNat + 1 =
        state.running.toNat
      rw [Nat.succ.inj hcount, hholds, hrunning]
      rfl

theorem drained_of_phase (hphase : state.phase.idle = false) : Drained state := by
  intro hidle
  rw [hphase] at hidle
  cases hidle

/-- A loop with a task is not idle. -/
theorem Drained.not_idle (hdrained : Drained state) {task : Task} (hmem : task ∈ state.tasks) :
    state.phase.idle = false := by
  by_contra hidle
  rw [Bool.not_eq_false] at hidle
  exact List.ne_nil_of_mem hmem (hdrained hidle)

theorem step_drained (hdrained : Drained state) {action : Action}
    (hstep : step entry state action = some next) : Drained next := by
  cases action with
  | begin now =>
      simp only [step, Option.ite_none_right_eq_some, Option.some.injEq] at hstep
      obtain ⟨hphase, rfl⟩ := hstep
      have hempty := hdrained (by rw [hphase]; rfl)
      unfold State.reschedule
      split
      · exact fun _ => hempty
      · exact fun _ => hempty
  | cancel =>
      simp only [step, Option.some.injEq] at hstep
      subst hstep
      exact hdrained
  | stop | wake | reap | store =>
      simp only [step, Option.ite_none_right_eq_some, Option.some.injEq] at hstep
      obtain ⟨-, rfl⟩ := hstep
      exact drained_of_phase rfl
  | load =>
      simp only [step, Option.ite_none_right_eq_some, Option.some.injEq] at hstep
      obtain ⟨-, rfl⟩ := hstep
      split
      · exact drained_of_phase rfl
      · exact drained_of_phase rfl
  | spawn now =>
      simp only [step, Option.ite_none_right_eq_some] at hstep
      obtain ⟨-, hstep⟩ := hstep
      split at hstep
      · rw [Option.some.injEq] at hstep
        exact hstep ▸ drained_of_phase rfl
      · rw [Option.some.injEq] at hstep
        exact hstep ▸ drained_of_phase rfl
  | reschedule now =>
      simp only [step, Option.ite_none_right_eq_some, Option.some.injEq] at hstep
      obtain ⟨-, rfl⟩ := hstep
      unfold State.reschedule
      split
      · exact drained_of_phase rfl
      · exact drained_of_phase rfl
  | join task =>
      simp only [step, Option.ite_none_right_eq_some, Option.some.injEq] at hstep
      obtain ⟨⟨-, hmem, -⟩, rfl⟩ := hstep
      -- a task that is joined was not drained
      exact drained_of_phase (hdrained.not_idle hmem)
  | exit =>
      simp only [step, Option.ite_none_right_eq_some, Option.some.injEq] at hstep
      obtain ⟨⟨-, hempty⟩, rfl⟩ := hstep
      exact fun _ => hempty
  | finish task outcome | clear task outcome | panic task =>
      simp only [step, Option.ite_none_right_eq_some, Option.some.injEq] at hstep
      obtain ⟨⟨hmem, -⟩, rfl⟩ := hstep
      exact drained_of_phase (hdrained.not_idle hmem)

end Step

/-! ## Executions do not overlap -/

theorem token_initial : Token .initial := ⟨rfl, fun _ => rfl⟩

theorem drained_initial : Drained .initial := fun _ => rfl

/-- **Executions never overlap, and none outlives the loop.**  In every state of every
run at most one execution of the handler is live, and when the loop has returned none
is. -/
theorem executions_drained (entry : CronEntry) (actions : List Action) (state : State)
    (hvisits : Machine.Visits (step entry) .initial actions state) :
    state.live ≤ 1 ∧ (state.phase = .returned → state.live = 0) := by
  have htoken : Token state :=
    Machine.visits_invariant Token (fun _ _ _ htoken hstep => step_token htoken hstep)
      token_initial hvisits
  have hdrained : Drained state :=
    Machine.visits_invariant Drained (fun _ _ _ hdrained hstep => step_drained hdrained hstep)
      drained_initial hvisits
  refine ⟨live_le_one htoken, ?_⟩
  intro hphase
  rw [State.live, hdrained (by rw [hphase]; rfl), List.countP_nil]

/-! ### The first tick -/

/-- A job that is due every minute. -/
def everyMinute : CronEntry := ⟨"job", fun now => some (now.addSeconds 60), 300⟩

/-- The task of the first tick. -/
def firstTask (status : Status) : Task := ⟨0, ⟨"job", 301, ofSecs 60⟩, status⟩

/-- The loop starts the handler at its first tick. -/
def firstTick : List Action :=
  [.begin (ofSecs 0), .wake, .reap, .load, .store, .spawn 1, .reschedule (ofSecs 60)]

/-- The entry is cancelled while the handler runs. -/
def cancelledRun : List Action :=
  firstTick ++ [.cancel, .stop, .finish (firstTask .executing) .timedOut,
    .clear (firstTask (.clearing .timedOut)) .timedOut, .join (firstTask .finished), .exit]

/-- The loop of `cancelledRun` waits for the handler and returns. -/
theorem cancelledRun_drained : ∃ state,
    Machine.Visits (step everyMinute) .initial cancelledRun state ∧
    state.phase = .returned ∧ state.spawned = 1 ∧ state.live = 0 := by
  have hends : (Machine.run (step everyMinute) .initial cancelledRun).any (fun state => decide
      (state.phase = .returned ∧ state.spawned = 1)) = true := by
    decide +kernel
  obtain ⟨state, hrun, hphase, hspawned⟩ := Machine.exists_final hends
  have hvisits := Machine.visits_final hrun
  exact ⟨state, hvisits, hphase, hspawned,
    (executions_drained everyMinute cancelledRun state hvisits).2 hphase⟩

/-! ## Skipped ticks -/

/-- At a tick, a flag that is set means that an execution is live, and a tick without a
live execution starts one. -/
def NotStuck (state : State) (next : State) : Prop :=
  (state.running = true → ∃ task ∈ state.tasks, task.isLive = true) ∧
    ((∀ task ∈ state.tasks, task.isLive = false) → next.phase = .starting)

/-- When the flag is read, it is set by a live execution or by one that has panicked. -/
theorem Token.running_eq {state : State} (htoken : Token state) (hphase : state.phase = .reaped) :
    state.live + state.unwound.toNat = state.running.toNat := by
  have hheld := htoken.held
  rw [hphase] at hheld
  simpa [Phase.holds] using hheld

/-- A tick is as it should be exactly when no execution has panicked. -/
theorem notStuck_iff {entry : CronEntry} {state next : State} (htoken : Token state)
    (hstep : step entry state .load = some next) :
    NotStuck state next ↔ state.unwound = false := by
  simp only [step, Option.ite_none_right_eq_some, Option.some.injEq] at hstep
  obtain ⟨hphase, rfl⟩ := hstep
  have hflag := htoken.running_eq hphase
  have hbound := Bool.toNat_le state.running
  constructor
  · rintro ⟨hlive, -⟩
    by_contra hunwound
    rw [Bool.not_eq_false] at hunwound
    rw [hunwound, Bool.toNat_true] at hflag
    have hrunning : state.running = true := by
      rw [← Bool.toNat_eq_one]
      omega
    have hpos : 0 < state.live := live_pos_iff.mpr (hlive hrunning)
    omega
  · intro hunwound
    rw [hunwound, Bool.toNat_false, Nat.add_zero] at hflag
    constructor
    · intro hrunning
      rw [hrunning, Bool.toNat_true] at hflag
      exact live_pos_iff.mp (by omega)
    · intro hover
      have hzero : state.live = 0 := List.countP_eq_zero.mpr (by simpa using hover)
      have hrunning : state.running = false := by
        rw [← Bool.toNat_eq_zero]
        omega
      simp [hrunning]

/-- Only a panic is remembered as one. -/
theorem step_unwound {entry : CronEntry} {state next : State} {action : Action}
    (hstep : step entry state action = some next) :
    next.unwound = true ↔ state.unwound = true ∨ ∃ task, action = .panic task := by
  cases action with
  | begin now | reschedule now =>
      simp only [step, Option.ite_none_right_eq_some, Option.some.injEq] at hstep
      obtain ⟨-, rfl⟩ := hstep
      unfold State.reschedule
      split <;> simp
  | cancel =>
      simp only [step, Option.some.injEq] at hstep
      simp [← hstep]
  | stop | wake | reap | load | store | exit =>
      simp only [step, Option.ite_none_right_eq_some, Option.some.injEq] at hstep
      simp [← hstep.2]
  | spawn now =>
      simp only [step, Option.ite_none_right_eq_some] at hstep
      obtain ⟨-, hstep⟩ := hstep
      split at hstep
      · rw [Option.some.injEq] at hstep
        simp [← hstep]
      · rw [Option.some.injEq] at hstep
        simp [← hstep]
  | join task | finish task outcome | clear task outcome | panic task =>
      simp only [step, Option.ite_none_right_eq_some, Option.some.injEq] at hstep
      simp [← hstep.2, State.setStatus]

/-- An execution has panicked if it did so in a step of the run. -/
theorem run_unwound {entry : CronEntry} {actions : List Action} {start state : State}
    (hrun : Machine.run (step entry) start actions = some state) :
    state.unwound = true ↔ start.unwound = true ∨ ∃ task, .panic task ∈ actions := by
  induction actions generalizing start with
  | nil =>
      rw [Machine.run_nil, Option.some.injEq] at hrun
      simp [hrun]
  | cons action rest ih =>
      obtain ⟨next, hstep, hrest⟩ := Machine.run_cons_eq_some.mp hrun
      rw [ih hrest, step_unwound hstep, or_assoc, ← exists_or]
      simp only [List.mem_cons, eq_comm]

/-- **When an entry never gets stuck.**  Along a run, every tick that finds the flag set
has a live execution, and every tick without one starts the handler, exactly when no
tick follows the panic of an execution. -/
theorem not_stuck_iff (entry : CronEntry) (actions : List Action) (final : State)
    (hrun : Machine.run (step entry) .initial actions = some final) :
    (∀ state next, Machine.Taken (step entry) .initial actions state .load next →
      NotStuck state next) ↔
    ∀ before after, actions = before ++ .load :: after → ∀ task, .panic task ∉ before := by
  have htick : ∀ {before after state next}, actions = before ++ .load :: after →
      Machine.run (step entry) .initial before = some state →
      step entry state .load = some next →
      (NotStuck state next ↔ ∀ task, .panic task ∉ before) := by
    intro before after state next heq hbefore hstep
    have htoken : Token state :=
      Machine.run_invariant Token (fun _ _ _ htoken hstep => step_token htoken hstep)
        token_initial hbefore
    rw [notStuck_iff htoken hstep, ← Bool.not_eq_true, run_unwound hbefore]
    simp [State.initial]
  constructor
  · rintro hticks before after rfl
    obtain ⟨state, hbefore, hload⟩ := Machine.run_append_eq_some.mp hrun
    obtain ⟨next, hstep, -⟩ := Machine.run_cons_eq_some.mp hload
    exact (htick rfl hbefore hstep).mp (hticks state next ⟨before, after, rfl, hbefore, hstep⟩)
  · rintro hnone state next ⟨before, after, heq, hbefore, hstep⟩
    exact (htick heq hbefore hstep).mpr (hnone before after heq)

/-! ### A failure and a panic -/

/-- The handler fails, and the next tick comes. -/
def failingRun : List Action :=
  firstTick ++ [.finish (firstTask .executing) .failed,
    .clear (firstTask (.clearing .failed)) .failed, .wake, .reap, .load]

/-- The tick of `failingRun` after the failure starts the handler again. -/
theorem failingRun_not_stuck : ∃ final,
    Machine.run (step everyMinute) .initial failingRun = some final ∧
    final.phase = .starting ∧
    ∀ state next, Machine.Taken (step everyMinute) .initial failingRun state .load next →
      NotStuck state next := by
  have hends : (Machine.run (step everyMinute) .initial failingRun).any (fun final => decide
      (final.phase = .starting)) = true := by
    decide +kernel
  obtain ⟨final, hrun, hstarting⟩ := Machine.exists_final hends
  refine ⟨final, hrun, hstarting, ?_⟩
  refine (not_stuck_iff everyMinute failingRun final hrun).mpr ?_
  intro before after heq task hmem
  have hpanic : Action.panic task ∈ failingRun := heq ▸ List.mem_append_left _ hmem
  simp [failingRun, firstTick] at hpanic

/-- The handler panics, and the next tick comes. -/
def panickingRun : List Action :=
  firstTick ++ [.panic (firstTask .executing), .wake, .reap]

/-- The tick of `panickingRun` after the panic finds the flag set and no live execution,
and skips the handler. -/
theorem panic_skips_tick : ∃ state next,
    Machine.Taken (step everyMinute) .initial (panickingRun ++ [.load]) state .load next ∧
    state.running = true ∧ state.tasks = [] ∧ next.phase = .rescheduling ∧
    ¬ NotStuck state next := by
  have hends : (Machine.run (step everyMinute) .initial panickingRun).any (fun state => decide
      (state.phase = .reaped ∧ state.running = true ∧ state.tasks = [])) = true := by
    decide +kernel
  obtain ⟨state, hrun, hphase, hrunning, htasks⟩ := Machine.exists_final hends
  refine ⟨state, { state with phase := .rescheduling }, ⟨panickingRun, [], rfl, hrun, ?_⟩,
    hrunning, htasks, rfl, ?_⟩
  · simp [step, hphase, hrunning]
  · rintro ⟨hlive, -⟩
    obtain ⟨task, hmem, -⟩ := hlive hrunning
    simp [htasks] at hmem

end Modo.Cron
