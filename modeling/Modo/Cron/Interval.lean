import Modo.Cron.Duration
import Modo.Cron.Scheduler

/-!
# Intervals

`Schedule::parse` takes a schedule such as `@every 15m` as soon as its duration can be read.  The
interval is converted and added to the clock later, by `next_tick` in the loop of the entry.  There
the interval zero is never over (`nextTick_interval_iff`), and an interval or an instant out of
chrono's range is a panic.

Runs of the loop are those of `Cron.step` under a clock.  With an interval that is neither, the loop
starts its handler at ever later times (`paced_of_visits`).
-/

namespace Modo.Cron

/-! ## Schedules -/

/-- What the program uses of other crates. -/
structure Calendar (Cron : Type) where
  /-- The whole seconds of the largest `chrono::Duration`. -/
  maxDelta : ℕ
  /-- `DateTime::<Utc>::MAX_UTC`. -/
  maxUtc : DateTime
  /-- A cron expression as croner reads it. -/
  parseExpr : List Char → Except String Cron
  findNextOccurrence : Cron → DateTime → Option DateTime

inductive Schedule (Cron : Type) where
  | cron (expr : Cron)
  /-- Seconds. -/
  | interval (secs : ℕ)

section Schedule

variable {Cron : Type} (calendar : Calendar Cron)

/-- `chrono::Duration::from_std`. -/
def Calendar.fromStd (secs : ℕ) : Option ℕ := if secs ≤ calendar.maxDelta then some secs else none

/-- The sum of an instant and a duration; `none` is a panic. -/
def Calendar.add (now : DateTime) (secs : ℕ) : Option DateTime :=
  let sum := if secs = 0 then now else now.addSeconds secs
  if sum ≤ calendar.maxUtc then some sum else none

/-- The expression of an alias. -/
def aliasExpr (trimmed : List Char) : Option (List Char) :=
  if trimmed = "@yearly".toList ∨ trimmed = "@annually".toList then some "0 0 0 1 1 *".toList
  else if trimmed = "@monthly".toList then some "0 0 0 1 * *".toList
  else if trimmed = "@weekly".toList then some "0 0 0 * * 0".toList
  else if trimmed = "@daily".toList ∨ trimmed = "@midnight".toList then some "0 0 0 * * *".toList
  else if trimmed = "@hourly".toList then some "0 0 * * * *".toList
  else none

def Schedule.parseCron (expr : List Char) : Except Error (Schedule Cron) :=
  match calendar.parseExpr expr with
  | .ok parsed => .ok (.cron parsed)
  | .error e => .error (.unprocessableEntity
      ("invalid cron expression '" ++ String.ofList expr ++ "': " ++ e))

/-- `Schedule::parse`; `none` is a panic. -/
def Schedule.parse (overflowChecks : Bool) (input : String) :
    Option (Except Error (Schedule Cron)) :=
  let trimmed := Text.trim input.toList
  match aliasExpr trimmed with
  | some expr => some (parseCron calendar expr)
  | none =>
      if "@every ".toList.isPrefixOf trimmed then
        let durStr := Text.trim (trimmed.drop "@every ".toList.length)
        (parseDuration overflowChecks (String.ofList durStr)).map fun parsed =>
          parsed.map fun secs => .interval secs.toNat
      else some (parseCron calendar trimmed)

/-- `next_tick`; the outer `none` is a panic. -/
def Schedule.nextTick (now : DateTime) : Schedule Cron → Option (Option DateTime)
  | .cron expr => some (calendar.findNextOccurrence expr now)
  | .interval secs => (calendar.fromStd secs).bind fun delta => (calendar.add now delta).map some

/-- The next tick is there and lies ahead. -/
def Progresses (schedule : Schedule Cron) (now : DateTime) : Prop :=
  ∃ tick, schedule.nextTick calendar now = some (some tick) ∧ now < tick

end Schedule

section Interval

variable {Cron : Type} {calendar : Calendar Cron}

theorem lt_addSeconds (now : DateTime) {secs : ℕ} (hsecs : 0 < secs) :
    now < now.addSeconds secs := by
  rw [DateTime.lt_def]
  left
  show now.secs < now.secs + secs
  omega

theorem nextTick_of_within {secs : ℕ} (hsecs : 0 < secs) (hdelta : secs ≤ calendar.maxDelta)
    {now : DateTime} (hnow : now.addSeconds secs ≤ calendar.maxUtc) :
    (Schedule.interval secs).nextTick calendar now = some (some (now.addSeconds secs)) := by
  rw [Schedule.nextTick, Calendar.fromStd, if_pos hdelta, Option.bind_some, Calendar.add]
  simp only [Nat.ne_of_gt hsecs, if_false, if_pos hnow, Option.map_some]

/-- **The next tick of an interval** lies ahead exactly when the interval is not zero, and neither
it nor the sum with the clock is out of range. -/
theorem progresses_iff (secs : ℕ) (now : DateTime) :
    Progresses calendar (.interval secs) now ↔
      0 < secs ∧ secs ≤ calendar.maxDelta ∧ now.addSeconds secs ≤ calendar.maxUtc := by
  constructor
  · rintro ⟨tick, htick, hlt⟩
    rw [Schedule.nextTick, Option.bind_eq_some_iff] at htick
    obtain ⟨delta, hdelta, hadd⟩ := htick
    rw [Calendar.fromStd, Option.ite_none_right_eq_some, Option.some.injEq] at hdelta
    obtain ⟨hle, rfl⟩ := hdelta
    rw [Option.map_eq_some_iff] at hadd
    obtain ⟨sum, hsum, htick⟩ := hadd
    rw [Option.some.injEq] at htick
    subst htick
    rw [Calendar.add, Option.ite_none_right_eq_some, Option.some.injEq] at hsum
    obtain ⟨hmax, rfl⟩ := hsum
    have hpos : 0 < secs := by
      by_contra hzero
      rw [if_pos (by omega)] at hlt
      exact lt_irrefl now hlt
    rw [if_neg (by omega)] at hmax
    exact ⟨hpos, hle, hmax⟩
  · rintro ⟨hsecs, hdelta, hnow⟩
    exact ⟨_, nextTick_of_within hsecs hdelta hnow, lt_addSeconds now hsecs⟩

end Interval

/-- An accepted interval is the sum of the components of its text, as a `u64`. -/
theorem interval_of_parse {Cron : Type} {calendar : Calendar Cron} {overflowChecks : Bool}
    {input : String} {secs : ℕ}
    (hparse : Schedule.parse calendar overflowChecks input = some (.ok (.interval secs))) :
    ∃ durStr components, Text.trim input.toList = "@every ".toList ++ durStr ∧
      Matches (String.ofList (Text.trim durStr)) components ∧
      secs = totalSecs components % 2 ^ 64 := by
  have hcron : ∀ expr, Schedule.parseCron calendar expr ≠ .ok (.interval secs) := by
    intro expr hexpr
    rw [Schedule.parseCron] at hexpr
    split at hexpr <;> cases hexpr
  unfold Schedule.parse at hparse
  simp only at hparse
  split at hparse
  · exact absurd (Option.some.inj hparse) (hcron _)
  · split at hparse
    · rename_i hprefix
      rw [List.isPrefixOf_iff_prefix] at hprefix
      obtain ⟨durStr, htrimmed⟩ := hprefix
      rw [← htrimmed, List.drop_left, Option.map_eq_some_iff] at hparse
      obtain ⟨parsed, hparsed, hok⟩ := hparse
      cases parsed with
      | error error => cases hok
      | ok total =>
          obtain ⟨components, hmatches, rfl⟩ := matches_of_parseDuration hparsed
          rw [Except.map, Except.ok.injEq, Schedule.interval.injEq] at hok
          exact ⟨durStr, components, htrimmed.symm, hmatches,
            by rw [← hok, UInt64.toNat_ofNat']⟩
    · exact absurd (Option.some.inj hparse) (hcron _)

/-! ## The loop under a clock -/

/-- The loop of an entry and the time. -/
structure Clocked where
  loop : State
  now : DateTime
  /-- When handlers were started, the latest first. -/
  starts : List DateTime
  /-- `next_tick` has panicked. -/
  dead : Bool

inductive ClockedAction where
  /-- Time passes. -/
  | advance (later : DateTime)
  | act (action : Action)

section Clocked

variable (nextTick : DateTime → Option (Option DateTime)) (name : String) (timeoutSecs : ℕ)

/-- The entry whose next tick does not panic. -/
def entryOf : CronEntry where
  name := name
  schedule now := (nextTick now).join
  timeoutSecs := timeoutSecs

/-- The instant for which an action computes the next tick. -/
def Action.reading : Action → Option DateTime
  | .begin now | .reschedule now => some now
  | _ => none

def Action.isWake : Action → Bool
  | .wake => true
  | _ => false

/-- The loop reads the clock, and its sleep ends when the clock has reached the next tick. -/
def Clocked.enabled (state : Clocked) (action : Action) : Bool :=
  action.reading.all (fun now => decide (now = state.now)) &&
    (!action.isWake || decide (state.loop.nextTick ≤ state.now))

def clockedStep (state : Clocked) : ClockedAction → Option Clocked
  | .advance later => if state.now ≤ later then some { state with now := later } else none
  | .act action =>
      if state.dead = false ∧ state.enabled action = true then
        (step (entryOf nextTick name timeoutSecs) state.loop action).map fun loop =>
          { loop
            now := state.now
            starts :=
              if state.loop.spawned < loop.spawned then state.now :: state.starts
              else state.starts
            dead := action.reading.any fun now => (nextTick now).isNone }
      else none

end Clocked

def Clocked.initial (now : DateTime) : Clocked := ⟨.initial, now, [], false⟩

/-- Between two starts time has passed. -/
def Clocked.InOrder (state : Clocked) : Prop :=
  state.starts.Pairwise fun later earlier => earlier < later

/-! ### What a step of the loop does to the ticks -/

/-- A tick is due, and its handler has not been started. -/
def Phase.due : Phase → Bool
  | .woken | .reaped | .starting | .claimed => true
  | _ => false

/-- A step leaves the next tick, starts nothing, and does not begin to sleep or to be due. -/
structure Keeps (state next : State) : Prop where
  spawned : next.spawned = state.spawned
  nextTick : next.nextTick = state.nextTick
  sleeping : next.phase = .sleeping → state.phase = .sleeping
  due : next.phase.due = true → state.phase.due = true

section Keeps

variable {entry : CronEntry} {state next : State}

/-- The steps of the loop, as far as ticks are concerned. -/
theorem step_pace {action : Action} (hstep : step entry state action = some next) :
    Keeps state next ∨
    (action = .wake ∧ state.phase = .sleeping ∧ next.spawned = state.spawned ∧
      next.phase = .woken) ∨
    (∃ now stopped, action.reading = some now ∧ next = state.reschedule entry now stopped) ∨
    (state.phase = .claimed ∧ next.phase = .rescheduling) := by
  cases action with
  | begin now =>
      simp only [step, Option.ite_none_right_eq_some, Option.some.injEq] at hstep
      obtain ⟨-, rfl⟩ := hstep
      exact Or.inr (Or.inr (Or.inl ⟨now, .returned, rfl, rfl⟩))
  | reschedule now =>
      simp only [step, Option.ite_none_right_eq_some, Option.some.injEq] at hstep
      obtain ⟨-, rfl⟩ := hstep
      exact Or.inr (Or.inr (Or.inl ⟨now, .draining, rfl, rfl⟩))
  | cancel =>
      simp only [step, Option.some.injEq] at hstep
      subst hstep
      exact Or.inl ⟨rfl, rfl, id, id⟩
  | stop | exit =>
      simp only [step, Option.ite_none_right_eq_some, Option.some.injEq] at hstep
      obtain ⟨-, rfl⟩ := hstep
      exact Or.inl ⟨rfl, rfl, by simp, by simp [Phase.due]⟩
  | wake =>
      simp only [step, Option.ite_none_right_eq_some, Option.some.injEq] at hstep
      obtain ⟨hphase, rfl⟩ := hstep
      exact Or.inr (Or.inl ⟨rfl, hphase, rfl, rfl⟩)
  | reap | store =>
      simp only [step, Option.ite_none_right_eq_some, Option.some.injEq] at hstep
      obtain ⟨hphase, rfl⟩ := hstep
      exact Or.inl ⟨rfl, rfl, by simp, fun _ => by rw [hphase]; rfl⟩
  | load =>
      simp only [step, Option.ite_none_right_eq_some, Option.some.injEq] at hstep
      obtain ⟨hphase, rfl⟩ := hstep
      refine Or.inl ⟨rfl, rfl, ?_, fun _ => by rw [hphase]; rfl⟩
      split <;> simp
  | spawn now =>
      simp only [step, Option.ite_none_right_eq_some] at hstep
      obtain ⟨hphase, hstep⟩ := hstep
      split at hstep
      · rw [Option.some.injEq] at hstep
        subst hstep
        -- the execution is skipped, and only then a claim leads to the next tick
        exact Or.inr (Or.inr (Or.inr ⟨hphase, rfl⟩))
      · rw [Option.some.injEq] at hstep
        subst hstep
        exact Or.inl ⟨rfl, rfl, by simp, by simp [Phase.due]⟩
  | join task | finish task outcome | clear task outcome | panic task =>
      simp only [step, Option.ite_none_right_eq_some, Option.some.injEq] at hstep
      obtain ⟨-, rfl⟩ := hstep
      exact Or.inl ⟨rfl, rfl, id, id⟩

theorem reschedule_of_some {now tick : DateTime} (htick : entry.schedule now = some tick)
    (stopped : Phase) :
    state.reschedule entry now stopped = { state with phase := .sleeping, nextTick := tick } := by
  rw [State.reschedule, htick]

end Keeps

/-! ### Runs -/

/-- The loop is alive, the next tick lies behind all starts, and a due tick behind them. -/
structure Paced (state : Clocked) : Prop where
  alive : state.dead = false
  inOrder : state.InOrder
  past : ∀ start ∈ state.starts, start ≤ state.now
  ahead : state.loop.phase = .sleeping → ∀ start ∈ state.starts, start < state.loop.nextTick
  due : state.loop.phase.due = true → ∀ start ∈ state.starts, start < state.now

section Runs

variable {Cron : Type} {calendar : Calendar Cron} {secs : ℕ} {name : String} {timeoutSecs : ℕ}

theorem paced_initial (now : DateTime) : Paced (.initial now) where
  alive := rfl
  inOrder := List.Pairwise.nil
  past := by simp [Clocked.initial]
  ahead := by simp [Clocked.initial]
  due := by simp [Clocked.initial]

theorem Paced.advance {state : Clocked} (hpaced : Paced state) {later : DateTime}
    (hlater : state.now ≤ later) : Paced { state with now := later } where
  alive := hpaced.alive
  inOrder := hpaced.inOrder
  past start hstart := le_trans (hpaced.past start hstart) hlater
  ahead := hpaced.ahead
  due hdue start hstart := lt_of_lt_of_le (hpaced.due hdue start hstart) hlater

/-- The clock readings of an action are within the calendar, with the interval. -/
def Within (calendar : Calendar Cron) (secs : ℕ) : ClockedAction → Prop
  | .advance _ => True
  | .act action => ∀ now ∈ action.reading, now.addSeconds secs ≤ calendar.maxUtc

theorem Paced.step {state next : Clocked} (hsecs : 0 < secs) (hdelta : secs ≤ calendar.maxDelta)
    {action : ClockedAction} (hwithin : Within calendar secs action) (hpaced : Paced state)
    (hstep : clockedStep (fun now => (Schedule.interval secs).nextTick calendar now) name
      timeoutSecs state action = some next) : Paced next := by
  cases action with
  | advance later =>
      rw [clockedStep, Option.ite_none_right_eq_some, Option.some.injEq] at hstep
      obtain ⟨hlater, rfl⟩ := hstep
      exact hpaced.advance hlater
  | act action =>
      rw [clockedStep, Option.ite_none_right_eq_some, Option.map_eq_some_iff] at hstep
      obtain ⟨⟨-, henabled⟩, loop, hloop, rfl⟩ := hstep
      rw [Clocked.enabled, Bool.and_eq_true] at henabled
      have hticks : ∀ now ∈ action.reading, (Schedule.interval secs).nextTick calendar now =
          some (some (now.addSeconds secs)) :=
        fun now hnow => nextTick_of_within hsecs hdelta (hwithin now hnow)
      have halive : (action.reading.any fun now =>
          ((Schedule.interval secs).nextTick calendar now).isNone) = false := by
        cases hreading : action.reading with
        | none => rfl
        | some now => rw [Option.any_some, hticks now hreading]; rfl
      rcases step_pace hloop with hkeeps | ⟨rfl, hphase, hspawned, hwoken⟩ |
        ⟨now, stopped, hreading, rfl⟩ | ⟨hclaimed, hnext⟩
      · have hstarts : ¬ state.loop.spawned < loop.spawned := by rw [hkeeps.spawned]; omega
        simp only [halive, if_neg hstarts]
        refine ⟨rfl, hpaced.inOrder, hpaced.past, fun hsleeping => ?_, fun hdue => ?_⟩
        · rw [hkeeps.nextTick]
          exact hpaced.ahead (hkeeps.sleeping hsleeping)
        · exact hpaced.due (hkeeps.due hdue)
      · -- the sleep is over, so the clock has reached the tick
        have htick : state.loop.nextTick ≤ state.now := by simpa [Action.isWake] using henabled.2
        have hstarts : ¬ state.loop.spawned < loop.spawned := by rw [hspawned]; omega
        simp only [halive, if_neg hstarts]
        refine ⟨rfl, hpaced.inOrder, hpaced.past, fun hsleeping => ?_, fun _ start hstart => ?_⟩
        · rw [hwoken] at hsleeping
          cases hsleeping
        · exact lt_of_lt_of_le (hpaced.ahead hphase start hstart) htick
      · -- the new tick lies behind the clock
        have hnow : now = state.now := by simpa [hreading] using henabled.1
        have hschedule : state.loop.reschedule (entryOf (fun now =>
            (Schedule.interval secs).nextTick calendar now) name timeoutSecs) now stopped =
            { state.loop with phase := .sleeping, nextTick := now.addSeconds secs } := by
          apply reschedule_of_some
          exact congrArg Option.join (hticks now hreading)
        rw [hschedule]
        simp only [halive, if_neg (lt_irrefl _)]
        refine ⟨rfl, hpaced.inOrder, hpaced.past, fun _ start hstart => ?_, fun hphase => ?_⟩
        · exact lt_of_le_of_lt (hpaced.past start hstart) (hnow ▸ lt_addSeconds now hsecs)
        · cases hphase
      · have hbehind := hpaced.due (by rw [hclaimed]; rfl)
        have hawake : loop.phase = .sleeping → False := fun h => by rw [hnext] at h; cases h
        have hdone : loop.phase.due = true → False := fun h => by rw [hnext] at h; cases h
        by_cases hspawned : state.loop.spawned < loop.spawned
        · simp only [halive, if_pos hspawned]
          exact ⟨rfl, List.pairwise_cons.mpr ⟨hbehind, hpaced.inOrder⟩,
            List.forall_mem_cons.mpr ⟨le_refl _, hpaced.past⟩, fun h => (hawake h).elim,
            fun h => (hdone h).elim⟩
        · simp only [halive, if_neg hspawned]
          exact ⟨rfl, hpaced.inOrder, hpaced.past, fun h => (hawake h).elim,
            fun h => (hdone h).elim⟩

/-- **The ticks of an interval.**  In every run whose clock readings are within the calendar, the
loop stays alive, and time passes between two starts of the handler. -/
theorem paced_of_visits (hsecs : 0 < secs) (hdelta : secs ≤ calendar.maxDelta) {start : DateTime}
    {actions : List ClockedAction} (hwithin : ∀ action ∈ actions, Within calendar secs action)
    {state : Clocked}
    (hvisits : Machine.Visits (clockedStep (fun now => (Schedule.interval secs).nextTick calendar
      now) name timeoutSecs) (.initial start) actions state) : Paced state := by
  obtain ⟨before, after, rfl, hrun⟩ := hvisits
  refine Machine.run_invariant_of_allowed Paced (fun _ action => Within calendar secs action)
    (fun _ _ _ hpaced hallowed hstep => hpaced.step hsecs hdelta hallowed hstep)
    (paced_initial start) ?_ hrun
  intro state action next htaken
  exact hwithin action (List.mem_append_left _ htaken.mem)

end Runs

/-- chrono's ranges, and no cron expressions. -/
def intervalsOnly : Calendar Empty where
  maxDelta := 9223372036854775
  maxUtc := .ofSecs 8210266876799
  parseExpr _ := .error "not an interval"
  findNextOccurrence _ _ := none

/-- The task of the first start at the epoch. -/
def epochTask (status : Status) : Task := ⟨0, ⟨"job", 301, .ofSecs 0⟩, status⟩

/-- Two starts of the handler without time passing. -/
def zeroRun : List ClockedAction :=
  [.begin (.ofSecs 0), .wake, .reap, .load, .store, .spawn 1, .reschedule (.ofSecs 0),
    .finish (epochTask .executing) .completed, .clear (epochTask (.clearing .completed)) .completed,
    .wake, .reap, .load, .store, .spawn 1].map .act

end Modo.Cron
