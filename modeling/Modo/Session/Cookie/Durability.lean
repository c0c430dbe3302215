import Modo.Session.Cookie.Request

/-!
# Is what the handler wrote stored?

`set` and `remove_key` change the session in memory, and the response path
flushes it when nothing else is to be done.  When the cookie is to be set, after
`authenticate` or `rotate`, it does nothing else, and what was written to the
session is lost.

`Plan` reads off the operations alone what will happen: the data the current
session was stored with, the data the handler sees, whether its cookie is to be
set, and whether the trim of its own `create` has evicted it.  `Follows` says
that the request goes that way, and `durable_iff` that the stored row has the
data in memory exactly when the plan is lossless.
-/

namespace Modo.Sessions.Cookie

variable {sha256 : List UInt8 → String}

/-- One operation with all its store calls succeeding. -/
def performOk (sha256 : List UInt8 → String) (config : CookieSessionsConfig) (info : ClientInfo)
    (request : Request) (op : Op) : Option Request :=
  match perform sha256 config info request op with
  | none => none
  | some (next, reply) => if reply = .storeFailed then none else some next

/-- The operations a handler performs on its own session. -/
def Op.isRevoke : Op → Bool
  | .revoke _ _ _ => true
  | _ => false

/-- What the operations so far mean for the session that is current. -/
structure Plan where
  /-- The data it was stored with, and the data in memory. -/
  session : Option (Json × Json)
  /-- Its cookie is to be set on the response. -/
  replaced : Bool
  /-- The trim of its `create` has evicted it. -/
  evicted : Bool

/-- The plan of a request that has loaded its session. -/
def Plan.start (loaded : Loaded) : Plan where
  session := loaded.currentSession.map fun session => (session.data, session.data)
  replaced := false
  evicted := false

/-- The plan after one more operation. -/
def Plan.next (plan : Plan) : Op → Plan
  | .set key value =>
      { plan with
        session := plan.session.map fun pair => (pair.1, setKey key value pair.2) }
  | .removeKey key =>
      { plan with
        session := plan.session.map fun pair => (pair.1, Cookie.removeKey key pair.2) }
  | .authenticateWith _ data _ call =>
      { session := some (data, data)
        replaced := true
        evicted := decide (call.id ∈ call.victims.map Row.id) }
  | .rotate _ _ _ _ _ => { plan with replaced := plan.replaced || plan.session.isSome }
  | .logout _ | .logoutAll _ => { plan with session := none }
  | .logoutOther _ | .revoke _ _ _ => plan

/-- A session that is current at the end is still stored, and its data is as
stored if its cookie is to be set. -/
def Plan.Lossless (plan : Plan) : Prop :=
  ∀ stored data, plan.session = some (stored, data) →
    plan.evicted = false ∧ (plan.replaced = true → data = stored)

/-- The session that is current in memory is stored with the data in memory. -/
def Durable (request : Request) (table : SessionTable) : Prop :=
  ∀ session, request.current = some session →
    ∃ row, table.get? session.id = some row ∧ row.session.data = session.data

/-! ## The request follows the plan -/

/-- The row of a session: gone, or with the data it was stored with. -/
def StoredAs (evicted : Bool) (stored : Json) (row : Option Row) : Prop :=
  if evicted then row = none else ∃ found, row = some found ∧ found.session.data = stored

/-- The response path, by what the cookie is to become. -/
def Branch (loaded : Loaded) (plan : Plan) (request : Request) (session : SessionData)
    (stored : Json) : Prop :=
  if plan.replaced then ∃ token, request.action = .set token
  else request.action = .none ∧ plan.evicted = false ∧
    (∃ found, loaded.currentSession = some found ∧ found.id = session.id) ∧
    (request.dirty = false → session.data = stored)

/-- The request is where the plan says. -/
def Follows (loaded : Loaded) (plan : Plan) (request : Request) : Prop :=
  match request.current with
  | none => plan.session = none
  | some session => ∃ stored, plan.session = some (stored, session.data) ∧
      StoredAs plan.evicted stored (request.table.get? session.id) ∧
      Branch loaded plan request session stored

theorem follows_begin {config : CookieSessionsConfig} {info : ClientInfo}
    {cookie : Option (List Char)} {call : LoadCall} {table table' : SessionTable} {loaded : Loaded}
    (hload : load sha256 config info cookie call table = (loaded, table')) :
    Follows loaded (.start loaded) (begin loaded table') := by
  unfold Follows
  cases hcurrent : loaded.currentSession with
  | none => simp [begin, Plan.start, hcurrent]
  | some session =>
      obtain ⟨token, row, -, hget, hsession, -⟩ := load_current hload hcurrent
      simp only [begin, hcurrent]
      refine ⟨session.data, by simp [Plan.start, hcurrent], ?_, ?_⟩
      · exact ⟨row, hget, by rw [hsession]⟩
      · exact ⟨rfl, rfl, ⟨session, hcurrent, rfl⟩, fun _ => rfl⟩

/-- Another row function that keeps the data keeps how the session is stored. -/
theorem StoredAs.map {evicted : Bool} {stored : Json} {row : Option Row}
    (hstored : StoredAs evicted stored row) {f : Row → Row}
    (hdata : ∀ found, (f found).session.data = found.session.data) :
    StoredAs evicted stored (row.map f) := by
  unfold StoredAs at hstored ⊢
  cases evicted with
  | true =>
      rw [if_pos rfl] at hstored ⊢
      rw [hstored]
      rfl
  | false =>
      simp only [Bool.false_eq_true, if_false] at hstored ⊢
      obtain ⟨found, rfl, hfound⟩ := hstored
      exact ⟨f found, rfl, (hdata found).trans hfound⟩

/-- A row has the data in memory when it was not evicted and stores just that. -/
theorem StoredAs.data_iff {evicted : Bool} {stored data : Json} {row : Option Row}
    (hstored : StoredAs evicted stored row) :
    (∃ found, row = some found ∧ found.session.data = data) ↔ evicted = false ∧ data = stored := by
  unfold StoredAs at hstored
  cases evicted with
  | true =>
      rw [if_pos rfl] at hstored
      simp [hstored]
  | false =>
      simp only [Bool.false_eq_true, if_false] at hstored
      obtain ⟨found, rfl, hfound⟩ := hstored
      simp [hfound, eq_comm]

/-- Editing the data in memory. -/
theorem Follows.edit {loaded : Loaded} {plan : Plan} {request : Request} {session : SessionData}
    (hfollows : Follows loaded plan request) (hcurrent : request.current = some session)
    (edit : Json → Json) :
    Follows loaded { plan with session := plan.session.map fun pair => (pair.1, edit pair.2) }
      { request with
        current := some { session with data := edit session.data }, dirty := true } := by
  unfold Follows at hfollows ⊢
  simp only [hcurrent] at hfollows
  obtain ⟨stored, hsession, hstored, hbranch⟩ := hfollows
  refine ⟨stored, by simp [hsession], hstored, ?_⟩
  unfold Branch at hbranch ⊢
  cases hreplaced : plan.replaced with
  | true =>
      simp only [hreplaced, if_true] at hbranch
      simpa using hbranch
  | false =>
      simp only [hreplaced, Bool.false_eq_true, if_false] at hbranch ⊢
      refine ⟨hbranch.1, hbranch.2.1, hbranch.2.2.1, ?_⟩
      intro hdirty
      cases hdirty

/-- An edit that changes nothing. -/
theorem Follows.edit_same {loaded : Loaded} {plan : Plan} {request : Request}
    (hfollows : Follows loaded plan request) {edit : Json → Json}
    (hedit : ∀ session, request.current = some session → edit session.data = session.data) :
    Follows loaded { plan with session := plan.session.map fun pair => (pair.1, edit pair.2) }
      request := by
  unfold Follows at hfollows ⊢
  cases hcurrent : request.current with
  | none =>
      simp only [hcurrent] at hfollows ⊢
      simp [hfollows]
  | some session =>
      simp only [hcurrent] at hfollows ⊢
      obtain ⟨stored, hsession, hstored, hbranch⟩ := hfollows
      exact ⟨stored, by simp [hsession, hedit session hcurrent], hstored, hbranch⟩

/-- A new session that `create` has stored is what the plan says. -/
theorem follows_login {config : CookieSessionsConfig} {info : ClientInfo} {userId : String}
    {data : Json} {call : CreateCall} {request next : Request} {reply : Reply}
    (hlogin : login sha256 config info userId data call request = some (next, reply))
    (hok : reply ≠ .storeFailed) (loaded : Loaded) (destroyOk : Bool) (plan : Plan) :
    Follows loaded (plan.next (.authenticateWith userId data destroyOk call)) next := by
  unfold login at hlogin
  split at hlogin
  · cases hlogin
  · rw [Option.some.injEq, Prod.mk.injEq] at hlogin
    exact absurd hlogin.2.symm hok
  · rename_i table session token hcreate
    rw [Option.some.injEq, Prod.mk.injEq] at hlogin
    obtain ⟨rfl, -⟩ := hlogin
    obtain ⟨hid, hdata, hget⟩ := create_spec hcreate
    refine ⟨data, by rw [hdata]; rfl, ?_, ⟨token, rfl⟩⟩
    simp only [Plan.next, StoredAs, hget]
    by_cases hevicted : call.id ∈ call.victims.map Row.id
    · simp only [hevicted, decide_true, if_true]
    · simp only [hevicted, decide_false, Bool.false_eq_true, if_false]
      exact ⟨_, rfl, hdata⟩

/-- A change of the table that keeps how the current session is stored. -/
theorem Follows.setTable {loaded : Loaded} {plan : Plan} {request : Request}
    (hfollows : Follows loaded plan request) {table : SessionTable}
    (hstored : ∀ session stored, request.current = some session →
      StoredAs plan.evicted stored (request.table.get? session.id) →
      StoredAs plan.evicted stored (table.get? session.id)) :
    Follows loaded plan { request with table := table } := by
  unfold Follows at hfollows ⊢
  cases hcurrent : request.current with
  | none =>
      simp only [hcurrent] at hfollows
      exact hfollows
  | some session =>
      simp only [hcurrent] at hfollows
      obtain ⟨stored, hsession, hbefore, hbranch⟩ := hfollows
      exact ⟨stored, hsession, hstored session stored hcurrent hbefore, hbranch⟩

/-- One operation follows the plan. -/
theorem performOk_follows {config : CookieSessionsConfig} {info : ClientInfo} {loaded : Loaded}
    {plan : Plan} {request next : Request} {op : Op} (hfollows : Follows loaded plan request)
    (hop : op.isRevoke = false)
    (hperform : performOk sha256 config info request op = some next) :
    Follows loaded (plan.next op) next := by
  unfold performOk at hperform
  split at hperform
  · cases hperform
  rename_i after reply hafter
  split at hperform
  · cases hperform
  rename_i hok
  rw [Option.some.injEq] at hperform
  subst hperform
  cases op with
  | set key value =>
      rcases perform_set hafter with ⟨rfl, hsame⟩ | ⟨session, hcurrent, rfl⟩
      · exact hfollows.edit_same hsame
      · exact hfollows.edit hcurrent (setKey key value)
  | removeKey key =>
      rcases perform_removeKey hafter with ⟨rfl, hsame⟩ | ⟨session, hcurrent, rfl⟩
      · exact hfollows.edit_same hsame
      · exact hfollows.edit hcurrent (Cookie.removeKey key)
  | authenticateWith userId data destroyOk call =>
      rcases perform_authenticateWith hafter with
        ⟨-, hfailed⟩ | ⟨-, hlogin⟩ | ⟨session, -, -, hlogin⟩
      · exact absurd hfailed hok
      -- a login starts a new session, whatever was followed before
      · exact follows_login hlogin hok loaded destroyOk plan
      · exact follows_login hlogin hok loaded destroyOk plan
  | rotate token rotateOk rotateNow touchOk touchNow =>
      rcases perform_rotate hafter with
        ⟨rfl, hfailed | hnone⟩ | ⟨session, table, hcurrent, -, hrotate, ⟨-, hfailed⟩ | rfl⟩
      · exact absurd hfailed hok
      · unfold Follows at hfollows ⊢
        simp only [hnone] at hfollows ⊢
        exact hfollows
      · exact absurd hfailed hok
      · unfold Follows at hfollows ⊢
        simp only [hcurrent] at hfollows ⊢
        obtain ⟨stored, hsession, hstored, -⟩ := hfollows
        refine ⟨stored, hsession, ?_, ?_⟩
        · rw [get?_touch, if_pos rfl, get?_rotateToken hrotate, if_pos rfl]
          exact (hstored.map (f := Row.setToken _ _) fun _ => rfl).map fun _ => rfl
        · simp only [Branch, Plan.next, hsession, Option.isSome_some, Bool.or_true, if_true]
          exact ⟨token, rfl⟩
  | logout destroyOk =>
      rcases perform_logout (Or.inl rfl) hafter with ⟨-, hfailed⟩ | ⟨table, rfl⟩
      · exact absurd hfailed hok
      · rfl
  | logoutAll destroyOk =>
      rcases perform_logout (Or.inr rfl) hafter with ⟨-, hfailed⟩ | ⟨table, rfl⟩
      · exact absurd hfailed hok
      · rfl
  | logoutOther destroyOk =>
      obtain ⟨table, rfl, hsame⟩ := perform_logoutOther hafter
      refine hfollows.setTable ?_
      intro session stored hcurrent hbefore
      rw [hsame session hcurrent]
      exact hbefore
  | revoke id readOk destroyOk => cases hop

/-- A whole handler follows the plan. -/
theorem run_follows {config : CookieSessionsConfig} {info : ClientInfo} {loaded : Loaded}
    {plan : Plan} {request final : Request} {ops : List Op} (hfollows : Follows loaded plan request)
    (hops : ∀ op ∈ ops, op.isRevoke = false)
    (hrun : Machine.run (performOk sha256 config info) request ops = some final) :
    Follows loaded (ops.foldl Plan.next plan) final := by
  induction ops generalizing plan request with
  | nil =>
      rw [Machine.run_nil, Option.some.injEq] at hrun
      exact hrun ▸ hfollows
  | cons op rest ih =>
      obtain ⟨next, hnext, hrest⟩ := Machine.run_cons_eq_some.mp hrun
      have hfirst := performOk_follows hfollows (hops op List.mem_cons_self) hnext
      exact ih hfirst (fun other hother => hops other (List.mem_cons_of_mem _ hother)) hrest

/-! ## The response -/

/-- Without a cookie action a dirty session is flushed, and one that is not
dirty keeps its data. -/
theorem persist_data {config : CookieSessionsConfig} {loaded : Loaded} {found session : SessionData}
    {request : Request} {call : RespondCall} {stored : Json} (hflush : call.flushOk = true)
    (hcurrent : request.current = some session) (hid : found.id = session.id)
    (hstored : ∃ row, request.table.get? session.id = some row ∧ row.session.data = stored)
    (hclean : request.dirty = false → session.data = stored) :
    ∃ row, (persist config loaded found request call).get? session.id = some row ∧
      row.session.data = session.data := by
  obtain ⟨row, hget, hdata⟩ := hstored
  unfold persist
  cases hdirty : request.dirty with
  | true =>
      simp only [if_true, hcurrent, hflush]
      rw [get?_flush, if_pos hid.symm, hget, Option.map_some]
      exact ⟨_, rfl, rfl⟩
  | false =>
      have hsame : row.session.data = session.data := hdata.trans (hclean hdirty).symm
      simp only [Bool.false_eq_true, if_false]
      split
      · rw [get?_touch, if_pos hid.symm, hget, Option.map_some]
        exact ⟨_, rfl, hsame⟩
      · exact ⟨row, hget, hsame⟩

/-- **When the session is durable.**  For a request that loads its session, or
none, and performs any operations with every store call succeeding, the row of
the session that is current at the end has the data in memory exactly when the
plan is lossless: no session is current, or its row was not evicted by the trim
of its own `create` and, if the request authenticated or rotated it, the edits
made to it leave its data as it was stored. -/
theorem durable_iff {config : CookieSessionsConfig} {info : ClientInfo}
    {cookie : Option (List Char)} {loadCall : LoadCall} {table table' : SessionTable}
    {loaded : Loaded} {ops : List Op} {request : Request} {call : RespondCall}
    (hload : load sha256 config info cookie loadCall table = (loaded, table'))
    (hops : ∀ op ∈ ops, op.isRevoke = false)
    (hrun : Machine.run (performOk sha256 config info) (begin loaded table') ops = some request)
    (hflush : call.flushOk = true) :
    Durable request (respond config loaded request call).1 ↔
      (ops.foldl Plan.next (.start loaded)).Lossless := by
  have hfollows := run_follows (follows_begin hload) hops hrun
  generalize ops.foldl Plan.next (.start loaded) = plan at hfollows
  unfold Durable Plan.Lossless
  unfold Follows at hfollows
  cases hcurrent : request.current with
  | none =>
      simp only [hcurrent] at hfollows
      simp [hfollows]
  | some session =>
      simp only [hcurrent] at hfollows
      obtain ⟨stored, hsession, hstored, hbranch⟩ := hfollows
      simp only [hsession, Option.some.injEq, Prod.mk.injEq, forall_eq']
      unfold Branch at hbranch
      cases hreplaced : plan.replaced with
      | true =>
          -- the cookie is set, and the table stays as the operations left it
          simp only [hreplaced, if_true] at hbranch
          obtain ⟨token, haction⟩ := hbranch
          simp only [respond, haction]
          rw [hstored.data_iff]
          constructor
          · rintro ⟨hevicted, hdata⟩ _ _ ⟨rfl, rfl⟩
            exact ⟨hevicted, fun _ => hdata⟩
          · intro hlossless
            obtain ⟨hevicted, hdata⟩ := hlossless stored session.data ⟨rfl, rfl⟩
            exact ⟨hevicted, hdata trivial⟩
      | false =>
          simp only [hreplaced, Bool.false_eq_true, if_false] at hbranch
          obtain ⟨haction, hevicted, ⟨found, hloaded, hid⟩, hclean⟩ := hbranch
          simp only [StoredAs, hevicted, Bool.false_eq_true, if_false] at hstored
          simp only [respond, haction, hloaded]
          constructor
          · intro _ _ _ _
            refine ⟨hevicted, ?_⟩
            intro hreplaced
            cases hreplaced
          · intro _
            exact persist_data hflush hcurrent hid hstored hclean

/-- The handler writes to the session. -/
def setTheme : Op := .set "theme" (some (.string "dark"))

/-- A plain write is stored. -/
theorem setTheme_durable : ∃ request,
    Machine.run (performOk sampleSha256 sampleConfig sampleInfo)
      (begin sampleLoaded.1 sampleLoaded.2) [setTheme] = some request ∧
    Durable request (respond sampleConfig sampleLoaded.1 request sampleRespond).1 := by
  refine ⟨_, rfl, (durable_iff (show load sampleSha256 sampleConfig sampleInfo
    (some (sampleToken 0).asHex) sampleLoad sampleTable = _ from rfl)
    (by simp [setTheme, Op.isRevoke])
    (show Machine.run (performOk sampleSha256 sampleConfig sampleInfo)
      (begin sampleLoaded.1 sampleLoaded.2) [setTheme] = _ from rfl) rfl).mpr ?_⟩
  intro stored data _
  exact ⟨rfl, nofun⟩

/-- A write followed by a rotate is lost. -/
theorem setTheme_rotate_lost : ∃ request,
    Machine.run (performOk sampleSha256 sampleConfig sampleInfo)
      (begin sampleLoaded.1 sampleLoaded.2) [setTheme, rotateSample] = some request ∧
    ¬ Durable request (respond sampleConfig sampleLoaded.1 request sampleRespond).1 := by
  refine ⟨_, rfl, ?_⟩
  intro hdurable
  obtain ⟨row, hget, hdata⟩ := hdurable _ rfl
  have hrow : row.session.data = .object [] := by
    have hstored := congrArg (Option.map fun row : Row => row.session.data) hget
    exact (Option.some.inj hstored).symm
  rw [hrow] at hdata
  revert hdata
  decide

end Modo.Sessions.Cookie
