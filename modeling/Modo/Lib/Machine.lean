import Mathlib.Data.List.Basic

/-!
# Runs of a partial step function

A system is given by `step : State → Action → Option State`; `none` means that
the action is not possible in that state.  A run is a list of actions, and
`run` plays it.  `Taken` singles out one step of a run and `Visits` one state of
it, so that a condition on the steps of a run and a property of the states it
passes through can be stated about the same run.

Every invariant of a run is derived from one of the rules at the end: what each
step preserves (`run_invariant`), what each step preserves when the steps of the
run meet a condition (`run_invariant_of_allowed`), and when that condition is
exact (`visits_iff_allowed`).  On a concrete run the condition and the end can be found
by playing it (`forall_taken_of_checks`, `exists_final`).
-/

namespace Machine

variable {State Action : Type*} {step : State → Action → Option State}

/-- Play `actions` one after the other. -/
def run (step : State → Action → Option State) : State → List Action → Option State
  | state, [] => some state
  | state, action :: rest => (step state action).bind fun next => run step next rest

/-- `action` is taken from `state` to `next` somewhere in the run of `actions`
that begins in `start`. -/
def Taken (step : State → Action → Option State) (start : State) (actions : List Action)
    (state : State) (action : Action) (next : State) : Prop :=
  ∃ before after, actions = before ++ action :: after ∧
    run step start before = some state ∧ step state action = some next

@[simp] theorem run_nil (state : State) : run step state [] = some state := rfl

theorem run_cons_eq_some {start final : State} {action : Action} {rest : List Action} :
    run step start (action :: rest) = some final ↔
      ∃ next, step start action = some next ∧ run step next rest = some final := by
  simp [run, Option.bind_eq_some_iff]

theorem run_append_eq_some {start final : State} {first second : List Action} :
    run step start (first ++ second) = some final ↔
      ∃ middle, run step start first = some middle ∧ run step middle second = some final := by
  induction first generalizing start with
  | nil => simp
  | cons action rest ih =>
      simp only [List.cons_append, run_cons_eq_some, ih]
      constructor
      · rintro ⟨next, hstep, middle, hfirst, hsecond⟩
        exact ⟨middle, ⟨next, hstep, hfirst⟩, hsecond⟩
      · rintro ⟨middle, ⟨next, hstep, hfirst⟩, hsecond⟩
        exact ⟨next, hstep, middle, hfirst, hsecond⟩

/-- A run of one action is one step. -/
theorem run_singleton_eq_some {start final : State} {action : Action} :
    run step start [action] = some final ↔ step start action = some final := by
  simp [run_cons_eq_some]

theorem taken_head {start next : State} {action : Action} (rest : List Action)
    (hstep : step start action = some next) :
    Taken step start (action :: rest) start action next :=
  ⟨[], rest, rfl, rfl, hstep⟩

theorem Taken.cons {start next state after : State} {action taken : Action}
    {rest : List Action} (hstep : step start action = some next)
    (htaken : Taken step next rest state taken after) :
    Taken step start (action :: rest) state taken after := by
  obtain ⟨before, later, rfl, hbefore, hafter⟩ := htaken
  exact ⟨action :: before, later, rfl, run_cons_eq_some.mpr ⟨next, hstep, hbefore⟩, hafter⟩

/-- A step that is taken is an action of the run. -/
theorem Taken.mem {start state after : State} {taken : Action} {actions : List Action}
    (htaken : Taken step start actions state taken after) : taken ∈ actions := by
  obtain ⟨before, later, rfl, -, -⟩ := htaken
  simp

/-- A step of the second part of a run is a step of the run. -/
theorem Taken.append {start middle state after : State} {taken : Action}
    {first second : List Action} (hfirst : run step start first = some middle)
    (htaken : Taken step middle second state taken after) :
    Taken step start (first ++ second) state taken after := by
  obtain ⟨before, later, rfl, hbefore, hafter⟩ := htaken
  refine ⟨first ++ before, later, by simp, ?_, hafter⟩
  exact run_append_eq_some.mpr ⟨middle, hfirst, hbefore⟩

/-- A step of the first part of a run is a step of the run. -/
theorem Taken.append_right {start state after : State} {taken : Action} {first : List Action}
    (second : List Action) (htaken : Taken step start first state taken after) :
    Taken step start (first ++ second) state taken after := by
  obtain ⟨before, later, rfl, hbefore, hafter⟩ := htaken
  exact ⟨before, later ++ second, by simp, hbefore, hafter⟩

/-- The run of `actions` that begins in `start` passes through `state`. -/
def Visits (step : State → Action → Option State) (start : State) (actions : List Action)
    (state : State) : Prop :=
  ∃ before after, actions = before ++ after ∧ run step start before = some state

theorem visits_start (start : State) (actions : List Action) :
    Visits step start actions start :=
  ⟨[], actions, rfl, rfl⟩

theorem visits_final {start final : State} {actions : List Action}
    (hrun : run step start actions = some final) : Visits step start actions final :=
  ⟨actions, [], (List.append_nil actions).symm, hrun⟩

theorem Visits.cons {start next state : State} {action : Action} {rest : List Action}
    (hstep : step start action = some next) (hvisits : Visits step next rest state) :
    Visits step start (action :: rest) state := by
  obtain ⟨before, after, rfl, hbefore⟩ := hvisits
  exact ⟨action :: before, after, rfl, run_cons_eq_some.mpr ⟨next, hstep, hbefore⟩⟩

theorem visits_cons_iff {start state : State} {action : Action} {rest : List Action} :
    Visits step start (action :: rest) state ↔
      state = start ∨ ∃ next, step start action = some next ∧ Visits step next rest state := by
  constructor
  · rintro ⟨before, after, heq, hbefore⟩
    cases before with
    | nil =>
        rw [run_nil, Option.some.injEq] at hbefore
        exact Or.inl hbefore.symm
    | cons head before =>
        rw [List.cons_append, List.cons.injEq] at heq
        obtain ⟨rfl, rfl⟩ := heq
        obtain ⟨next, hstep, hbefore⟩ := run_cons_eq_some.mp hbefore
        exact Or.inr ⟨next, hstep, before, after, rfl, hbefore⟩
  · rintro (rfl | ⟨next, hstep, hvisits⟩)
    · exact visits_start _ _
    · exact hvisits.cons hstep

theorem taken_cons_iff {start state after : State} {action taken : Action}
    {rest : List Action} :
    Taken step start (action :: rest) state taken after ↔
      (state = start ∧ taken = action ∧ step start action = some after) ∨
        ∃ next, step start action = some next ∧ Taken step next rest state taken after := by
  constructor
  · rintro ⟨before, later, heq, hbefore, hafter⟩
    cases before with
    | nil =>
        rw [run_nil, Option.some.injEq] at hbefore
        rw [List.nil_append, List.cons.injEq] at heq
        obtain ⟨rfl, rfl⟩ := heq
        subst hbefore
        exact Or.inl ⟨rfl, rfl, hafter⟩
    | cons head before =>
        rw [List.cons_append, List.cons.injEq] at heq
        obtain ⟨rfl, rfl⟩ := heq
        obtain ⟨next, hstep, hbefore⟩ := run_cons_eq_some.mp hbefore
        exact Or.inr ⟨next, hstep, before, later, rfl, hbefore, hafter⟩
  · rintro (⟨rfl, rfl, hstep⟩ | ⟨next, hstep, htaken⟩)
    · exact taken_head rest hstep
    · exact htaken.cons hstep

/-- `P` holds of every step of the run, found by playing it. -/
def checks (step : State → Action → Option State) (P : State → Action → Prop)
    [∀ state action, Decidable (P state action)] : State → List Action → Bool
  | _, [] => true
  | state, action :: rest =>
      decide (P state action) && (step state action).all fun next => checks step P next rest

/-- A condition that was checked along a run holds of its steps. -/
theorem forall_taken_of_checks {P : State → Action → Prop}
    [∀ state action, Decidable (P state action)] {start : State} {actions : List Action}
    (hchecks : checks step P start actions = true) :
    ∀ state action next, Taken step start actions state action next → P state action := by
  rintro state action next ⟨before, after, rfl, hbefore, -⟩
  induction before generalizing start with
  | nil =>
      rw [run_nil, Option.some.injEq] at hbefore
      rw [List.nil_append, checks, Bool.and_eq_true, decide_eq_true_eq] at hchecks
      exact hbefore ▸ hchecks.1
  | cons head before ih =>
      obtain ⟨middle, hhead, hbefore⟩ := run_cons_eq_some.mp hbefore
      rw [List.cons_append, checks, Bool.and_eq_true, hhead, Option.all_some] at hchecks
      exact ih hchecks.2 hbefore

/-- The end of a run, found by playing it. -/
theorem exists_final {P : State → Prop} [DecidablePred P] {start : State} {actions : List Action}
    (hends : (run step start actions).any (fun final => decide (P final)) = true) :
    ∃ final, run step start actions = some final ∧ P final := by
  obtain ⟨final, hrun, hfinal⟩ := (Option.any_eq_true _ _).mp hends
  exact ⟨final, hrun, of_decide_eq_true hfinal⟩

/-! ## Invariants -/

/-- If every allowed step preserves `Inv` and all steps of a run are allowed,
the run preserves `Inv`. -/
theorem run_invariant_of_allowed (Inv : State → Prop) (allowed : State → Action → Prop)
    (hstep : ∀ state action next, Inv state → allowed state action →
      step state action = some next → Inv next)
    {start final : State} {actions : List Action} (hstart : Inv start)
    (hallowed : ∀ state action next, Taken step start actions state action next →
      allowed state action)
    (hrun : run step start actions = some final) : Inv final := by
  induction actions generalizing start with
  | nil =>
      rw [run_nil, Option.some.injEq] at hrun
      exact hrun ▸ hstart
  | cons action rest ih =>
      obtain ⟨next, hnext, hrest⟩ := run_cons_eq_some.mp hrun
      have hhead := hallowed start action next (taken_head rest hnext)
      refine ih (hstep start action next hstart hhead hnext) ?_ hrest
      intro state taken after htaken
      exact hallowed state taken after (htaken.cons hnext)

/-- What every step preserves, every run preserves. -/
theorem run_invariant (Inv : State → Prop)
    (hstep : ∀ state action next, Inv state → step state action = some next → Inv next)
    {start final : State} {actions : List Action} (hstart : Inv start)
    (hrun : run step start actions = some final) : Inv final :=
  run_invariant_of_allowed Inv (fun _ _ => True)
    (fun state action next hinv _ => hstep state action next hinv) hstart
    (fun _ _ _ _ => trivial) hrun

/-- What every step preserves holds in every state a run passes through. -/
theorem visits_invariant (Inv : State → Prop)
    (hstep : ∀ state action next, Inv state → step state action = some next → Inv next)
    {start state : State} {actions : List Action} (hstart : Inv start)
    (hvisits : Visits step start actions state) : Inv state := by
  obtain ⟨before, after, -, hbefore⟩ := hvisits
  exact run_invariant Inv hstep hstart hbefore

/-- Where allowed steps preserve `Inv`, and a step that is not allowed is seen in
`P`, `P` holds along a run exactly when all its steps are allowed. -/
theorem visits_iff_allowed (Inv P : State → Prop) (allowed : State → Action → Prop)
    (hholds : ∀ state, Inv state → P state)
    (hstep : ∀ state action next, Inv state → allowed state action →
      step state action = some next → Inv next)
    (hback : ∀ state action next, Inv state → step state action = some next → P next →
      allowed state action)
    {start : State} {actions : List Action} (hstart : Inv start) :
    (∀ state, Visits step start actions state → P state) ↔
      ∀ state action next, Taken step start actions state action next →
        allowed state action := by
  induction actions generalizing start with
  | nil =>
      constructor
      · rintro - state action next ⟨before, after, heq, -⟩
        simp at heq
      · rintro - state ⟨before, after, heq, hbefore⟩
        obtain ⟨rfl, rfl⟩ := List.append_eq_nil_iff.mp heq.symm
        rw [run_nil, Option.some.injEq] at hbefore
        exact hbefore ▸ hholds start hstart
  | cons action rest ih =>
      constructor
      · intro hP state taken after htaken
        -- the first step is allowed, so the rest of the run begins in `Inv`
        have hfirst : ∀ next, step start action = some next → allowed start action := by
          intro next hnext
          have hvisits : Visits step start (action :: rest) next :=
            (visits_start next rest).cons hnext
          exact hback start action next hstart hnext (hP next hvisits)
        rcases taken_cons_iff.mp htaken with ⟨rfl, rfl, hnext⟩ | ⟨next, hnext, htaken⟩
        · exact hfirst after hnext
        · have hinv : Inv next := hstep start action next hstart (hfirst next hnext) hnext
          exact (ih hinv).mp (fun state hvisits => hP state (hvisits.cons hnext))
            state taken after htaken
      · intro hallowed state hvisits
        rcases visits_cons_iff.mp hvisits with rfl | ⟨next, hnext, hvisits⟩
        · exact hholds state hstart
        · have hhead := hallowed start action next (taken_head rest hnext)
          have hinv : Inv next := hstep start action next hstart hhead hnext
          refine (ih hinv).mpr ?_ state hvisits
          intro state taken after htaken
          exact hallowed state taken after (htaken.cons hnext)

end Machine
