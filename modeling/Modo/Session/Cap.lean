import Modo.Lib.Machine
import Modo.Session.Store
import Modo.TimeOrder

/-!
# The cap on a user's sessions

`create` inserts a session and then trims the user's sessions to
`max_sessions_per_user`.  The two statements are not one transaction, and the
trim counts relative to the instant at which its own call began, so the trims of
concurrent calls may run in any order, each with an instant of its own.

* A run interleaves the inserts and trims of any number of calls with the other
  statements of the store under a clock that does not go back; `pending` lists
  the calls between their two statements.
* `Capped` is the invariant of a user: a call of the user is pending, or from
  some instant on, not later than the clock, the unexpired sessions number at
  most `max_sessions_per_user`.  A touch of an unexpired session keeps it,
  because the session was counted already.
* The counts of the trim are counts of texts, so the trims of a run have to be
  `Readable`: their instants have to be comparable with the expiries they are
  compared with.
-/

namespace Modo.Sessions.Cap

open DateTime (ofSecs)
open Overflow (asI64 asI64_of_lt asI64_le)

/-! ## Counting -/

/-- A session of the user that has not expired at `now`. -/
def unexpired (userId : String) (now : DateTime) (row : Row) : Bool :=
  decide (row.session.userId = userId ∧ now < row.session.expiresAt)

/-- The user's unexpired sessions. -/
def unexpiredRows (userId : String) (now : DateTime) (table : SessionTable) : List Row :=
  table.rows.filter (unexpired userId now)

/-- The trim reads the expiries of the user's sessions as the instants they are. -/
def Readable (userId : String) (now : DateTime) (table : SessionTable) : Prop :=
  ∀ row ∈ table.rows, row.session.userId = userId → now.Comparable row.session.expiresAt

instance (userId : String) (now : DateTime) (table : SessionTable) :
    Decidable (Readable userId now table) :=
  inferInstanceAs (Decidable
    (∀ row ∈ table.rows, row.session.userId = userId → now.Comparable row.session.expiresAt))

theorem unexpired_of_le {userId : String} {earlier later : DateTime} (hle : earlier ≤ later)
    {row : Row} (hrow : unexpired userId later row = true) :
    unexpired userId earlier row = true := by
  simp only [unexpired, decide_eq_true_eq] at hrow ⊢
  exact ⟨hrow.1, lt_of_le_of_lt hle hrow.2⟩

/-- Sessions expire as time goes on. -/
theorem length_unexpiredRows_of_le {userId : String} {earlier later : DateTime}
    (hle : earlier ≤ later) (table : SessionTable) :
    (unexpiredRows userId later table).length ≤ (unexpiredRows userId earlier table).length := by
  unfold unexpiredRows
  rw [← List.countP_eq_length_filter, ← List.countP_eq_length_filter]
  apply List.countP_mono_left
  intro row _ hrow
  exact unexpired_of_le hle hrow

/-- The sessions the trim counts are the unexpired ones. -/
theorem activeRows_eq {userId : String} {now : DateTime} {table : SessionTable}
    (hreadable : Readable userId now table) :
    activeRows userId now table = unexpiredRows userId now table := by
  apply List.filter_congr
  intro row hrow
  by_cases huser : row.session.userId = userId
  · have htext := (DateTime.textLT_iff_lt now row.session.expiresAt).mpr (hreadable row hrow huser)
    simp [unexpired, Row.isActive, huser, htext]
  · simp [unexpired, huser]

/-! ## The trim -/

section Trim

variable {userId : String} {now : DateTime} {max : ℕ} {victims : List Row}
  {table table' : SessionTable}

/-- The victims of a trim are an answer of its `SELECT`, and the others stay. -/
theorem trim_spec (htrim : trim userId now max victims table = some table') :
    IsLimited (fun a b => a.session.lastActiveAt.textLE b.session.lastActiveAt)
        (excess (activeRows userId now table).length max).toNat (activeRows userId now table)
        victims ∧
      table'.rows = table.rows.filter fun row => decide (row ∉ victims) := by
  unfold trim at htrim
  simp only at htrim
  split at htrim
  · rename_i hchosen
    have hlimited := hchosen.2
    refine ⟨hlimited, ?_⟩
    rw [Option.some.injEq] at htrim
    rw [← htrim, Table.delete]
    apply List.filter_congr
    intro row hrow
    -- a row whose id is that of a victim is the victim
    have hiff : row.id ∈ victims.map Row.id ↔ row ∈ victims := by
      constructor
      · intro hid
        obtain ⟨victim, hvictim, heq⟩ := List.mem_map.mp hid
        have hstored := (List.mem_filter.mp (hlimited.subset victim hvictim)).1
        exact table.key_inj hstored hrow heq ▸ hvictim
      · exact List.mem_map_of_mem
    simp [hiff]
  · cases htrim

/-- After a trim the user has at most `max` unexpired sessions. -/
theorem length_unexpiredRows_trim (htrim : trim userId now max victims table = some table')
    (hreadable : Readable userId now table) :
    (unexpiredRows userId now table').length ≤ max := by
  obtain ⟨hlimited, hrows⟩ := trim_spec htrim
  rw [activeRows_eq hreadable] at hlimited
  have hnodup : (unexpiredRows userId now table).Nodup := table.rows_nodup.filter _
  have hlength := hlimited.length_rest hnodup
  have hrest : unexpiredRows userId now table' =
      (unexpiredRows userId now table).filter fun row => decide (row ∉ victims) := by
    unfold unexpiredRows
    rw [hrows, List.filter_comm]
  -- a bound above `i64::MAX` is negative to the trim, and nothing is left
  have hcast := asI64_le max
  rw [hrest, hlength, excess]
  omega

end Trim

/-! ## Runs -/

/-- A `create` between its insert and its trim. -/
structure Pending where
  userId : String
  now : DateTime
  deriving DecidableEq

/-- The table, the clock and the calls between their statements. -/
structure State where
  table : SessionTable
  clock : DateTime
  pending : List Pending

/-- The empty store. -/
def State.initial (clock : DateTime) : State := ⟨Table.empty, clock, []⟩

/-- A step of a run. -/
inductive Action where
  | tick (now : DateTime)
  /-- The insert of `create`, which read the clock at `now`. -/
  | insert (info : ClientInfo) (userId : String) (data : Option Json) (id : String)
      (token : SessionToken) (now : DateTime)
  /-- The trim of the same call. -/
  | trim (userId : String) (now : DateTime) (victims : List Row)
  | destroy (id : String)
  | destroyAllForUser (userId : String)
  | destroyAllExcept (userId keepId : String)
  | cleanupExpired (now : DateTime)
  /-- `rotate_token` and `rotate_token_to`. -/
  | rotateToken (id hash : String) (now : DateTime)
  | touch (id : String) (now expiresAt : DateTime)
  | flush (id : String) (data : Json) (now expiresAt : DateTime)

/-- The session under an id has not expired, if there is one. -/
def current (id : String) (clock : DateTime) (table : SessionTable) : Bool :=
  (table.get? id).all fun row => decide (clock < row.session.expiresAt)

/-- One step.  An insert the constraints refuse ends its call.  The step is
`none` when the clock would go back, when a call read the clock in the future,
when a trim belongs to no pending call, and when the session to touch or to
flush has expired. -/
def step (sha256 : List UInt8 → String) (config : CookieSessionsConfig) (state : State) :
    Action → Option State
  | .tick now => if state.clock ≤ now then some { state with clock := now } else none
  | .insert info userId data id token now =>
      if now ≤ state.clock then
        match state.table.insert
            ⟨token.hash sha256, newSession config.sessionTtlSecs info userId data id now⟩ with
        | none => some state
        | some table =>
            some { state with table := table, pending := ⟨userId, now⟩ :: state.pending }
      else none
  | .trim userId now victims =>
      if ⟨userId, now⟩ ∈ state.pending then
        (trim userId now config.maxSessionsPerUser victims state.table).map fun table =>
          { state with table := table, pending := state.pending.erase ⟨userId, now⟩ }
      else none
  | .destroy id => some { state with table := destroy id state.table }
  | .destroyAllForUser userId => some { state with table := destroyAllForUser userId state.table }
  | .destroyAllExcept userId keepId =>
      some { state with table := destroyAllExcept userId keepId state.table }
  | .cleanupExpired now => some { state with table := cleanupExpired now state.table }
  | .rotateToken id hash now =>
      some { state with table := (rotateToken id hash now state.table).getD state.table }
  | .touch id now expiresAt =>
      if current id state.clock state.table then
        some { state with table := touch id now expiresAt state.table }
      else none
  | .flush id data now expiresAt =>
      if current id state.clock state.table then
        some { state with table := flush id data now expiresAt state.table }
      else none

/-- The trims of a run read the expiries as the instants they are. -/
def ReadableStep (state : State) : Action → Prop
  | .trim userId now _ => Readable userId now state.table
  | _ => True

instance (state : State) : (action : Action) → Decidable (ReadableStep state action)
  | .trim userId now _ => inferInstanceAs (Decidable (Readable userId now state.table))
  | .tick _ | .insert .. | .destroy _ | .destroyAllForUser _ | .destroyAllExcept .. |
    .cleanupExpired _ | .rotateToken .. | .touch .. | .flush .. => isTrue trivial

/-! ## The invariant -/

/-- A call of the user is pending, or the user's unexpired sessions are few. -/
def Capped (max : ℕ) (state : State) (userId : String) : Prop :=
  (∃ call ∈ state.pending, call.userId = userId) ∨
    ∃ since ≤ state.clock, (unexpiredRows userId since state.table).length ≤ max

/-- The invariant of a run. -/
structure Invariant (max : ℕ) (state : State) : Prop where
  /-- Calls read the clock before now. -/
  pending_le : ∀ call ∈ state.pending, call.now ≤ state.clock
  capped : ∀ userId, Capped max state userId

/-- A step that adds no unexpired session keeps the bound of a user. -/
theorem Capped.of_table {max : ℕ} {state : State} {userId : String} {table : SessionTable}
    (hcapped : Capped max state userId)
    (hcount : ∀ since ≤ state.clock, (unexpiredRows userId since table).length ≤
      (unexpiredRows userId since state.table).length) :
    Capped max { state with table := table } userId := by
  rcases hcapped with hpending | ⟨since, hsince, hfew⟩
  · exact Or.inl hpending
  · exact Or.inr ⟨since, hsince, (hcount since hsince).trans hfew⟩

theorem Invariant.of_table {max : ℕ} {state : State} {table : SessionTable}
    (hinv : Invariant max state)
    (hcount : ∀ userId, ∀ since ≤ state.clock, (unexpiredRows userId since table).length ≤
      (unexpiredRows userId since state.table).length) :
    Invariant max { state with table := table } :=
  ⟨hinv.pending_le, fun userId => (hinv.capped userId).of_table (hcount userId)⟩

/-- A deletion adds no session. -/
theorem Invariant.delete {max : ℕ} {state : State} (hinv : Invariant max state)
    (p : Row → Bool) : Invariant max { state with table := state.table.delete p } :=
  hinv.of_table fun _ _ _ => (List.filter_sublist.filter _).length_le

/-- An update under `p` adds no session when the ones it changes were counted. -/
theorem length_unexpiredRows_setWhere {userId : String} {since : DateTime} {p : Row → Bool}
    {f : Row → Row} {table table' : SessionTable}
    (hrows : table'.rows = table.rows.map (Table.setWhere p f))
    (hcounted : ∀ row ∈ table.rows, p row = true → unexpired userId since (f row) = true →
      unexpired userId since row = true) :
    (unexpiredRows userId since table').length ≤ (unexpiredRows userId since table).length := by
  unfold unexpiredRows
  rw [← List.countP_eq_length_filter, ← List.countP_eq_length_filter, hrows]
  exact Table.countP_setWhere_le hcounted

/-- A touch or a flush of a session that has not expired. -/
theorem length_unexpiredRows_extend {userId id : String} {clock since : DateTime}
    {f : Row → Row} {table table' : SessionTable}
    (hrows : table'.rows = table.rows.map (Table.setWhere (fun row => decide (row.id = id)) f))
    (huser : ∀ row, (f row).session.userId = row.session.userId)
    (hcurrent : current id clock table = true) (hsince : since ≤ clock) :
    (unexpiredRows userId since table').length ≤ (unexpiredRows userId since table).length := by
  refine length_unexpiredRows_setWhere hrows ?_
  intro row hrow hid hset
  simp only [unexpired, decide_eq_true_eq, huser] at hid hset ⊢
  refine ⟨hset.1, lt_of_le_of_lt hsince ?_⟩
  have hget : table.get? id = some row := Table.get?_eq_some.mpr ⟨hrow, hid⟩
  rw [current, hget, Option.all_some, decide_eq_true_eq] at hcurrent
  exact hcurrent

/-- An insert makes a call of its user pending and adds no session of another. -/
theorem Invariant.insert {max : ℕ} {state : State} (hinv : Invariant max state) {row : Row}
    {now : DateTime} (hnow : now ≤ state.clock) {table : SessionTable}
    (hinsert : state.table.insert row = some table) :
    Invariant max
      { state with table := table, pending := ⟨row.session.userId, now⟩ :: state.pending } := by
  constructor
  · exact List.forall_mem_cons.mpr ⟨hnow, hinv.pending_le⟩
  · intro userId
    by_cases huser : row.session.userId = userId
    · exact Or.inl ⟨_, List.mem_cons_self, huser⟩
    · rcases hinv.capped userId with ⟨call, hcall, hcallUser⟩ | ⟨since, hsince, hfew⟩
      · exact Or.inl ⟨call, List.mem_cons_of_mem _ hcall, hcallUser⟩
      · refine Or.inr ⟨since, hsince, ?_⟩
        have hsame : unexpiredRows userId since table =
            unexpiredRows userId since state.table := by
          simp [unexpiredRows, Table.rows_insert hinsert, unexpired, huser]
        rw [hsame]
        exact hfew

/-- A trim brings its user under the bound from its own instant on. -/
theorem Invariant.trim {max : ℕ} {state : State} (hinv : Invariant max state) {userId : String}
    {now : DateTime} {victims : List Row} {table : SessionTable}
    (hpending : ⟨userId, now⟩ ∈ state.pending)
    (htrim : Sessions.trim userId now max victims state.table = some table)
    (hreadable : Readable userId now state.table) :
    Invariant max
      { state with table := table, pending := state.pending.erase ⟨userId, now⟩ } := by
  constructor
  · exact fun call hcall => hinv.pending_le call (List.mem_of_mem_erase hcall)
  · intro other
    by_cases hother : other = userId
    · subst hother
      refine Or.inr ⟨now, hinv.pending_le _ hpending, ?_⟩
      exact length_unexpiredRows_trim htrim hreadable
    · rcases hinv.capped other with ⟨call, hcall, hcallUser⟩ | ⟨since, hsince, hfew⟩
      · refine Or.inl ⟨call, ?_, hcallUser⟩
        refine (List.mem_erase_of_ne ?_).mpr hcall
        rintro rfl
        exact hother hcallUser.symm
      · refine Or.inr ⟨since, hsince, le_trans ?_ hfew⟩
        unfold unexpiredRows
        rw [(trim_spec htrim).2]
        exact (List.filter_sublist.filter _).length_le

theorem step_invariant {sha256 : List UInt8 → String} {config : CookieSessionsConfig}
    {state next : State} {action : Action} (hinv : Invariant config.maxSessionsPerUser state)
    (hreadable : ReadableStep state action) (hstep : step sha256 config state action = some next) :
    Invariant config.maxSessionsPerUser next := by
  cases action with
  | tick now =>
      simp only [step, Option.ite_none_right_eq_some, Option.some.injEq] at hstep
      obtain ⟨hle, rfl⟩ := hstep
      refine ⟨fun call hcall => (hinv.pending_le call hcall).trans hle, fun userId => ?_⟩
      exact (hinv.capped userId).imp_right
        fun ⟨since, hsince, hfew⟩ => ⟨since, hsince.trans hle, hfew⟩
  | insert info userId data id token now =>
      simp only [step, Option.ite_none_right_eq_some] at hstep
      obtain ⟨hnow, hstep⟩ := hstep
      split at hstep
      · rw [Option.some.injEq] at hstep
        exact hstep ▸ hinv
      · rename_i table hinsert
        rw [Option.some.injEq] at hstep
        subst hstep
        exact hinv.insert hnow hinsert
  | trim userId now victims =>
      simp only [step, Option.ite_none_right_eq_some, Option.map_eq_some_iff] at hstep
      obtain ⟨hpending, table, htrim, rfl⟩ := hstep
      exact hinv.trim hpending htrim hreadable
  | destroy id =>
      simp only [step, Option.some.injEq] at hstep
      subst hstep
      exact hinv.delete _
  | destroyAllForUser user =>
      simp only [step, Option.some.injEq] at hstep
      subst hstep
      exact hinv.delete _
  | destroyAllExcept user keepId =>
      simp only [step, Option.some.injEq] at hstep
      subst hstep
      exact hinv.delete _
  | cleanupExpired now =>
      simp only [step, Option.some.injEq] at hstep
      subst hstep
      exact hinv.delete _
  | rotateToken id hash now =>
      simp only [step, Option.some.injEq] at hstep
      subst hstep
      cases hrotate : rotateToken id hash now state.table with
      | none => exact hinv
      | some table =>
          refine hinv.of_table fun userId since _ => ?_
          exact length_unexpiredRows_setWhere (Table.rows_update hrotate) fun row _ _ hset => hset
  | touch id now expiresAt =>
      simp only [step, Option.ite_none_right_eq_some, Option.some.injEq] at hstep
      obtain ⟨hcurrent, rfl⟩ := hstep
      refine hinv.of_table fun userId since hsince => ?_
      exact length_unexpiredRows_extend rfl (fun _ => rfl) hcurrent hsince
  | flush id data now expiresAt =>
      simp only [step, Option.ite_none_right_eq_some, Option.some.injEq] at hstep
      obtain ⟨hcurrent, rfl⟩ := hstep
      refine hinv.of_table fun userId since hsince => ?_
      exact length_unexpiredRows_extend rfl (fun _ => rfl) hcurrent hsince

theorem invariant_initial (max : ℕ) (clock : DateTime) : Invariant max (State.initial clock) :=
  ⟨by simp [State.initial],
    fun _ => Or.inr ⟨clock, le_rfl, by simp [State.initial, unexpiredRows, Table.empty]⟩⟩

/-- A user without pending call has at most `max_sessions_per_user` unexpired
sessions. -/
theorem run_unexpiredRows_le {sha256 : List UInt8 → String} {config : CookieSessionsConfig}
    {clock : DateTime} {actions : List Action} {state : State}
    (hrun : Machine.run (step sha256 config) (State.initial clock) actions = some state)
    (hreadable : ∀ before action after,
      Machine.Taken (step sha256 config) (State.initial clock) actions before action after →
        ReadableStep before action)
    {userId : String} (hquiet : ∀ call ∈ state.pending, call.userId ≠ userId) :
    (unexpiredRows userId state.clock state.table).length ≤ config.maxSessionsPerUser := by
  have hinv : Invariant config.maxSessionsPerUser state :=
    Machine.run_invariant_of_allowed (Invariant config.maxSessionsPerUser) ReadableStep
      (fun _ _ _ => step_invariant) (invariant_initial _ clock) hreadable hrun
  rcases hinv.capped userId with ⟨call, hcall, huser⟩ | ⟨since, hsince, hfew⟩
  · exact absurd huser (hquiet call hcall)
  · exact (length_unexpiredRows_of_le hsince state.table).trans hfew

/-! ## A call that runs alone -/

/-- What a call that runs alone compares are instants in their order: the
expiries with its own instant, and the activity of the user's sessions with each
other and with its own instant.  The session it makes must not expire at once, and the lifetime
and the bound must be positive after their casts too. -/
structure CreateReadable (config : CookieSessionsConfig) (userId : String) (now : DateTime)
    (table : SessionTable) : Prop where
  ttl : 1 ≤ config.sessionTtlSecs
  ttl_lt : config.sessionTtlSecs < 2 ^ 63
  max_lt : config.maxSessionsPerUser < 2 ^ 63
  expiry : now.Comparable (now.addSeconds config.sessionTtlSecs)
  expiries : Readable userId now table
  activity : ∀ row ∈ table.rows, row.session.userId = userId →
    now.Comparable row.session.lastActiveAt ∧
      ∀ other ∈ table.rows, other.session.userId = userId →
        row.session.lastActiveAt.Comparable other.session.lastActiveAt

instance (config : CookieSessionsConfig) (userId : String) (now : DateTime)
    (table : SessionTable) : Decidable (CreateReadable config userId now table) :=
  decidable_of_iff
    (1 ≤ config.sessionTtlSecs ∧ config.sessionTtlSecs < 2 ^ 63 ∧
      config.maxSessionsPerUser < 2 ^ 63 ∧
      now.Comparable (now.addSeconds config.sessionTtlSecs) ∧ Readable userId now table ∧
      ∀ row ∈ table.rows, row.session.userId = userId →
        now.Comparable row.session.lastActiveAt ∧
          ∀ other ∈ table.rows, other.session.userId = userId →
            row.session.lastActiveAt.Comparable other.session.lastActiveAt)
    ⟨fun ⟨h₁, h₂, h₃, h₄, h₅, h₆⟩ => ⟨h₁, h₂, h₃, h₄, h₅, h₆⟩,
      fun h => ⟨h.ttl, h.ttl_lt, h.max_lt, h.expiry, h.expiries, h.activity⟩⟩

/-- What a call that runs alone does to the table: `session` is the new one. -/
structure CreatedAlone (sha256 : List UInt8 → String) (max : ℕ) (userId : String) (now : DateTime)
    (table table' : SessionTable) (session : SessionData) (token : SessionToken) : Prop where
  /-- The new session is kept. -/
  created : ⟨token.hash sha256, session⟩ ∈ table'.rows
  /-- So are `max - 1` of the previous unexpired ones, or all of them. -/
  kept : ((unexpiredRows userId now table).filter fun row => decide (row ∈ table'.rows)).length =
    min (max - 1) (unexpiredRows userId now table).length
  /-- The evicted ones are no more recently active than the kept ones. -/
  recent : ∀ row ∈ unexpiredRows userId now table, row ∈ table'.rows →
    ∀ evicted ∈ unexpiredRows userId now table, evicted ∉ table'.rows →
      evicted.session.lastActiveAt ≤ row.session.lastActiveAt
  /-- Rows of other users and expired rows stay as they are. -/
  others : ∀ row ∈ table.rows, row ∉ unexpiredRows userId now table → row ∈ table'.rows
  /-- No other row appears. -/
  subset : ∀ row ∈ table'.rows, row ∈ table.rows ∨ row = ⟨token.hash sha256, session⟩

section Alone

variable {sha256 : List UInt8 → String} {config : CookieSessionsConfig} {userId : String}
  {now : DateTime} {victims : List Row} {table inserted table' : SessionTable} {row : Row}

/-- The new session is the last of the unexpired ones. -/
theorem unexpiredRows_insert (hinsert : table.insert row = some inserted)
    (hrow : unexpired userId now row = true) :
    unexpiredRows userId now inserted = unexpiredRows userId now table ++ [row] := by
  rw [unexpiredRows, Table.rows_insert hinsert, List.filter_append, List.filter_singleton, hrow]
  rfl

/-- The new session is the most recently active one, so it is no victim. -/
theorem not_mem_victims (hinsert : table.insert row = some inserted)
    (hrow : unexpired userId now row = true) (hmax : 1 ≤ config.maxSessionsPerUser)
    (hcast : asI64 config.maxSessionsPerUser = config.maxSessionsPerUser)
    (hlimited : IsLimited (fun a b => a.session.lastActiveAt.textLE b.session.lastActiveAt)
      (excess (unexpiredRows userId now inserted).length config.maxSessionsPerUser).toNat
      (unexpiredRows userId now inserted) victims)
    (hnewest : ∀ other ∈ unexpiredRows userId now table,
      ¬ row.session.lastActiveAt.textLE other.session.lastActiveAt) : row ∉ victims := by
  intro hvictim
  -- not all are victims, and a session that stays would have to be more recent
  have hrest : (unexpiredRows userId now inserted).filter (fun other => decide (other ∉ victims)) ≠
      [] := by
    intro hnil
    have hlength := hlimited.length_rest (inserted.rows_nodup.filter _)
    rw [hnil, unexpiredRows_insert hinsert hrow, List.length_append, List.length_singleton,
      List.length_nil, excess, hcast] at hlength
    omega
  obtain ⟨other, hother⟩ := List.exists_mem_of_ne_nil _ hrest
  rw [List.mem_filter, decide_eq_true_eq] at hother
  have hle := hlimited.le_rest row hvictim other hother.1 hother.2
  have hprevious : other ∈ unexpiredRows userId now table := by
    rw [unexpiredRows_insert hinsert hrow, List.mem_append, List.mem_singleton] at hother
    exact hother.1.resolve_right fun heq => hother.2 (heq ▸ hvictim)
  exact hnewest other hprevious hle

theorem CreateReadable.readable_insert (hreadable : CreateReadable config userId now table)
    (hinsert : table.insert row = some inserted)
    (hexpiry : row.session.expiresAt = now.addSeconds config.sessionTtlSecs) :
    Readable userId now inserted := by
  intro other hother huser
  rw [Table.rows_insert hinsert, List.mem_append, List.mem_singleton] at hother
  rcases hother with hprevious | rfl
  · exact hreadable.expiries other hprevious huser
  · rw [hexpiry]
    exact hreadable.expiry

/-- The insert and the trim of a call, one right after the other. -/
theorem createdAlone_of_trim {session : SessionData} {token : SessionToken}
    (hmax : 1 ≤ config.maxSessionsPerUser) (huser : session.userId = userId)
    (hactive : session.lastActiveAt = now)
    (hexpires : session.expiresAt = now.addSeconds (asI64 config.sessionTtlSecs))
    (hinsert : table.insert ⟨token.hash sha256, session⟩ = some inserted)
    (htrim : trim userId now config.maxSessionsPerUser victims inserted = some table')
    (hreadable : CreateReadable config userId now table)
    (hlater : ∀ row ∈ table.rows, row.session.userId = userId → row.session.lastActiveAt < now) :
    CreatedAlone sha256 config.maxSessionsPerUser userId now table table' session token := by
  obtain ⟨hlimited, hrows⟩ := trim_spec htrim
  have hcast := asI64_of_lt hreadable.max_lt
  have hexpiry : session.expiresAt = now.addSeconds config.sessionTtlSecs := by
    rw [hexpires, asI64_of_lt hreadable.ttl_lt]
  have hreadableInserted := hreadable.readable_insert hinsert hexpiry
  rw [activeRows_eq hreadableInserted] at hlimited
  have hunexpired : unexpired userId now ⟨token.hash sha256, session⟩ = true := by
    have httl := hreadable.ttl
    simp only [unexpired, decide_eq_true_eq, hexpiry, DateTime.lt_def, DateTime.addSeconds]
    exact ⟨huser, Or.inl (by omega)⟩
  have hcandidates := unexpiredRows_insert hinsert hunexpired
  -- the new row is the latest, and a trim leaves the latest
  have hnew : ⟨token.hash sha256, session⟩ ∉ victims := by
    apply not_mem_victims hinsert hunexpired hmax hcast hlimited
    intro other hother hle
    rw [unexpiredRows, List.mem_filter] at hother
    simp only [unexpired, decide_eq_true_eq] at hother
    rw [hactive, DateTime.textLE_iff_le (hreadable.activity other hother.1 hother.2.1).1] at hle
    exact not_le_of_gt (hlater other hother.1 hother.2.1) hle
  have hmem : ∀ row ∈ table.rows, row ∈ table'.rows ↔ row ∉ victims := by
    intro row hrow
    rw [hrows, List.mem_filter, decide_eq_true_eq, Table.rows_insert hinsert]
    exact and_iff_right (List.mem_append_left _ hrow)
  have hprevious : ∀ row ∈ unexpiredRows userId now table,
      row ∈ table.rows ∧ row.session.userId = userId := by
    intro row hrow
    rw [unexpiredRows, List.mem_filter] at hrow
    simp only [unexpired, decide_eq_true_eq] at hrow
    exact ⟨hrow.1, hrow.2.1⟩
  constructor
  · rw [hrows, List.mem_filter, decide_eq_true_eq, Table.rows_insert hinsert]
    exact ⟨List.mem_append_right _ (List.mem_singleton_self _), hnew⟩
  -- the row counts among those that are left
  · have hlength := hlimited.length_rest (inserted.rows_nodup.filter _)
    rw [hcandidates, List.filter_append, List.length_append,
      List.filter_singleton, decide_eq_true hnew, excess, hcast] at hlength
    have hsame : (unexpiredRows userId now table).filter (fun row => decide (row ∈ table'.rows)) =
        (unexpiredRows userId now table).filter fun row => decide (row ∉ victims) := by
      apply List.filter_congr
      intro row hrow
      rw [decide_eq_decide]
      exact hmem row (hprevious row hrow).1
    rw [hsame]
    simp only [List.length_append, List.length_singleton, cond_true] at hlength
    omega
  · intro row hrow hkept evicted hevicted hgone
    obtain ⟨hrowStored, hrowUser⟩ := hprevious row hrow
    obtain ⟨hevictedStored, hevictedUser⟩ := hprevious evicted hevicted
    rw [hmem row hrowStored] at hkept
    rw [hmem evicted hevictedStored, not_not] at hgone
    have hle := hlimited.le_rest evicted hgone row
      (by rw [hcandidates]; exact List.mem_append_left _ hrow) hkept
    rw [DateTime.textLE_iff_le
      ((hreadable.activity evicted hevictedStored hevictedUser).2 row hrowStored hrowUser)] at hle
    exact hle
  · intro row hrow hother
    rw [hmem row hrow]
    intro hvictim
    have hcandidate := hlimited.subset row hvictim
    rw [hcandidates, List.mem_append, List.mem_singleton] at hcandidate
    rcases hcandidate with hactive | rfl
    · exact hother hactive
    · exact hnew hvictim
  · intro row hrow
    rw [hrows, List.mem_filter, Table.rows_insert hinsert, List.mem_append,
      List.mem_singleton] at hrow
    exact hrow.1

end Alone

/-! ## The result -/

/-- **The cap on sessions**: in every run whose trims compare comparable
instants, a user without a call between its insert and its trim has at most
`max_sessions_per_user` unexpired sessions; and a call that runs alone, later
than all activity of the user, keeps the new session and the most recently
active ones. -/
theorem session_cap (sha256 : List UInt8 → String) (config : CookieSessionsConfig)
    (hmax : 1 ≤ config.maxSessionsPerUser) :
    (∀ (clock : DateTime) (actions : List Action) (state : State),
      Machine.run (step sha256 config) (State.initial clock) actions = some state →
      (∀ before action after,
        Machine.Taken (step sha256 config) (State.initial clock) actions before action after →
          ReadableStep before action) →
      ∀ userId, (∀ call ∈ state.pending, call.userId ≠ userId) →
        (unexpiredRows userId state.clock state.table).length ≤ config.maxSessionsPerUser) ∧
    ∀ (info : ClientInfo) (userId : String) (data : Option Json) (call : CreateCall)
      (table table' : SessionTable) (session : SessionData) (token : SessionToken),
      create sha256 config info userId data call table = some (table', some (session, token)) →
      (∀ row ∈ table.rows, row.session.userId = userId →
        row.session.lastActiveAt < call.now) →
      CreateReadable config userId call.now table →
      CreatedAlone sha256 config.maxSessionsPerUser userId call.now table table' session token := by
  constructor
  · intro clock actions state hrun hreadable userId hquiet
    exact run_unexpiredRows_le hrun hreadable hquiet
  · intro info userId data call table table' session token hcreate hlater hreadable
    obtain ⟨rfl, rfl, inserted, hinsert, htrim⟩ := create_eq_some hcreate
    exact createdAlone_of_trim hmax rfl rfl rfl hinsert htrim hreadable hlater

/-! ## Runs on fixed inputs -/

/-- A client that sends nothing about itself. -/
def sampleClient : ClientInfo := ⟨none, none, none, none, none⟩

/-- Two calls of one user, one after the other, neither of which evicts. -/
def twoCreates : List Action :=
  [.insert sampleClient "user" none "01A" (sampleToken 0) (ofSecs 1767225600),
    .trim "user" (ofSecs 1767225600) [],
    .tick (ofSecs 1767225660),
    .insert sampleClient "user" none "01B" (sampleToken 1) (ofSecs 1767225660),
    .trim "user" (ofSecs 1767225660) []]

/-- Sessions that expire after the year 9999 are not counted: with room for one
session the user has two. -/
theorem distant_expiry_not_capped :
    ∃ state,
      Machine.run (step sampleSha256 { sessionTtlSecs := 300000000000, maxSessionsPerUser := 1 })
        (State.initial (ofSecs 1767225600)) twoCreates = some state ∧
      state.pending = [] ∧ (unexpiredRows "user" state.clock state.table).length = 2 := by
  have hany : (Machine.run
      (step sampleSha256 { sessionTtlSecs := 300000000000, maxSessionsPerUser := 1 })
      (State.initial (ofSecs 1767225600)) twoCreates).any (fun state =>
        decide (state.pending = [] ∧
          (unexpiredRows "user" state.clock state.table).length = 2)) = true := by
    decide
  exact Machine.exists_final hany

/-- The second of the two calls, with room for one session: it evicts the first. -/
def evictingCall (first : Row) : CreateCall :=
  ⟨"01B", sampleToken 1, ofSecs 1767225660, true, true, [first]⟩

/-- The row of the first call. -/
def firstRow : Row :=
  ⟨(sampleToken 0).hash sampleSha256,
    newSession 2592000 sampleClient "user" none "01A" (ofSecs 1767225600)⟩

/-- With room for two sessions and the default lifetime the run is within the
cap, and with room for one the second call alone evicts the first session. -/
theorem twoCreates_capped :
    (∃ state,
      Machine.run (step sampleSha256 { maxSessionsPerUser := 2 })
        (State.initial (ofSecs 1767225600)) twoCreates = some state ∧
      (unexpiredRows "user" state.clock state.table).length ≤ 2) ∧
    ∃ table table' session token,
      (Table.empty : SessionTable).insert firstRow = some table ∧
      create sampleSha256 { maxSessionsPerUser := 1 } sampleClient "user" none
        (evictingCall firstRow) table = some (table', some (session, token)) ∧
      CreatedAlone sampleSha256 1 "user" (ofSecs 1767225660) table table' session token := by
  constructor
  · have hany : (Machine.run (step sampleSha256 { maxSessionsPerUser := 2 })
        (State.initial (ofSecs 1767225600)) twoCreates).any (fun state =>
          decide (state.pending = [])) = true := by
      decide
    obtain ⟨state, hrun, hpending⟩ := Machine.exists_final hany
    refine ⟨state, hrun, (session_cap sampleSha256 { maxSessionsPerUser := 2 } (by decide)).1
      (ofSecs 1767225600) twoCreates state hrun
      (Machine.forall_taken_of_checks (by decide)) "user" ?_⟩
    rw [hpending]
    simp
  · have hany : ((Table.empty : SessionTable).insert firstRow).any (fun table =>
        decide (CreateReadable { maxSessionsPerUser := 1 } "user" (ofSecs 1767225660) table ∧
          ∀ row ∈ table.rows, row.session.lastActiveAt < ofSecs 1767225660) &&
        (create sampleSha256 { maxSessionsPerUser := 1 } sampleClient "user" none
          (evictingCall firstRow) table).any fun result => result.2.isSome) = true := by
      decide
    obtain ⟨table, hinsert, htable⟩ := (Option.any_eq_true _ _).mp hany
    rw [Bool.and_eq_true, decide_eq_true_eq] at htable
    obtain ⟨⟨hreadable, hlater⟩, hcreated⟩ := htable
    obtain ⟨⟨table', result⟩, hcreate, hresult⟩ := (Option.any_eq_true _ _).mp hcreated
    obtain ⟨⟨session, token⟩, rfl⟩ := Option.isSome_iff_exists.mp hresult
    exact ⟨table, table', session, token, hinsert, hcreate,
      (session_cap sampleSha256 { maxSessionsPerUser := 1 } (by decide)).2 sampleClient "user" none
        (evictingCall firstRow) table table' session token hcreate
        (fun row hrow _ => hlater row hrow) hreadable⟩

end Modo.Sessions.Cap
