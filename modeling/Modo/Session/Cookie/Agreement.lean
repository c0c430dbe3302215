import Modo.Session.Cookie.Request

/-!
# Do cookie, memory and store agree?

A session that `CookieSession` reports has to be in the store, and after the
response the cookie of the client has to carry its token; without a session the
cookie has to carry none.  Every store call of the request may fail.

`Agrees` is the invariant of the operations: the row of the current session
exists, and its hash is that of the token the response path will leave in the
cookie.  Four steps break it, because an operation made of several statements
stops between them or deletes its own session; `Slips` lists them, and the
results are about requests without them.

The response path keeps the cookie when the session could not be read, so that a
failing database does not log its users out.  That is the one case in which a
cookie is left that may resolve although no session is current
(`agreement`, `unread_cookie_kept`).
-/

namespace Modo.Sessions.Cookie

variable {sha256 : List UInt8 → String}

/-- One operation, whatever it returns. -/
def performStep (sha256 : List UInt8 → String) (config : CookieSessionsConfig) (info : ClientInfo)
    (request : Request) (op : Op) : Option Request :=
  (perform sha256 config info request op).map Prod.fst

/-- The operation leaves its steps unfinished or deletes the session it runs in:
`authenticate` fails after it has destroyed the current session, or evicts the
session it has created; the touch of `rotate` fails after the token has been
replaced; `revoke` is given the id of the current session. -/
def Slips (request : Request) (op : Op) (reply : Reply) : Prop :=
  match op with
  | .authenticateWith _ _ destroyOk call =>
      (request.current ≠ none ∧ destroyOk = true ∧ reply = .storeFailed) ∨
        (reply = .ok ∧ call.id ∈ call.victims.map Row.id)
  | .rotate _ rotateOk _ touchOk _ => rotateOk = true ∧ touchOk = false ∧ reply = .storeFailed
  | .revoke id _ _ => ∃ session, request.current = some session ∧ id = session.id ∧ reply = .ok
  | _ => False

/-! ## The operations -/

/-- The hash the row of the current session has: that of the token the cookie
will carry. -/
def CookieHash (sha256 : List UInt8 → String) (loaded : Loaded) (hash : String) :
    SessionAction → Prop
  | .none => loaded.currentSession ≠ none ∧
      ∃ token, loaded.sessionToken = some token ∧ hash = token.hash sha256
  | .set token => hash = token.hash sha256
  | .remove => False

/-- Memory, the store and what the cookie will become agree. -/
def Agrees (sha256 : List UInt8 → String) (loaded : Loaded) (request : Request) : Prop :=
  match request.current with
  | none => request.action = .remove ∨ request.action = .none ∧ loaded.currentSession = none
  | some session => ∃ row, request.table.get? session.id = some row ∧
      CookieHash sha256 loaded row.tokenHash request.action

theorem agrees_begin {config : CookieSessionsConfig} {info : ClientInfo}
    {cookie : Option (List Char)} {call : LoadCall} {table table' : SessionTable} {loaded : Loaded}
    (hload : load sha256 config info cookie call table = (loaded, table')) :
    Agrees sha256 loaded (begin loaded table') := by
  unfold Agrees
  cases hcurrent : loaded.currentSession with
  | none => simp [begin, hcurrent]
  | some session =>
      obtain ⟨token, row, htoken, hget, -, hhash⟩ := load_current hload hcurrent
      simp only [begin, hcurrent]
      exact ⟨row, hget, by simp [hcurrent], token, htoken, hhash⟩

/-- A change of the session in memory that keeps its id. -/
theorem Agrees.setData {loaded : Loaded} {request : Request} {session session' : SessionData}
    (hagrees : Agrees sha256 loaded request) (hcurrent : request.current = some session)
    (hid : session'.id = session.id) (dirty : Bool) :
    Agrees sha256 loaded { request with current := some session', dirty := dirty } := by
  unfold Agrees at hagrees ⊢
  simp only [hcurrent] at hagrees
  simp only [hid]
  exact hagrees

/-- A change of the table that keeps the row of the current session. -/
theorem Agrees.setTable {loaded : Loaded} {request : Request}
    (hagrees : Agrees sha256 loaded request) {table : SessionTable}
    (hrow : ∀ session, request.current = some session →
      table.get? session.id = request.table.get? session.id) :
    Agrees sha256 loaded { request with table := table } := by
  unfold Agrees at hagrees ⊢
  cases hcurrent : request.current with
  | none =>
      simp only [hcurrent] at hagrees
      exact hagrees
  | some session =>
      simp only [hcurrent] at hagrees
      simp only [hrow session hcurrent]
      exact hagrees

/-- Logging out, with the table in any state. -/
theorem agrees_logout (loaded : Loaded) (request : Request) (table : SessionTable) :
    Agrees sha256 loaded { request with table := table, current := none, action := .remove } :=
  Or.inl rfl

theorem login_agrees {config : CookieSessionsConfig} {info : ClientInfo} {userId : String}
    {data : Json} {call : CreateCall} {request next : Request} {reply : Reply} {loaded : Loaded}
    (hlogin : login sha256 config info userId data call request = some (next, reply))
    (hfailed : reply = .storeFailed → request.current = none ∧ Agrees sha256 loaded request)
    (hkept : reply = .ok → call.id ∉ call.victims.map Row.id) : Agrees sha256 loaded next := by
  unfold login at hlogin
  split at hlogin
  · cases hlogin
  · rw [Option.some.injEq, Prod.mk.injEq] at hlogin
    obtain ⟨rfl, rfl⟩ := hlogin
    obtain ⟨hnone, hagrees⟩ := hfailed rfl
    refine hagrees.setTable fun session hsome => ?_
    rw [hnone] at hsome
    cases hsome
  · rename_i table session token hcreate
    rw [Option.some.injEq, Prod.mk.injEq] at hlogin
    obtain ⟨rfl, rfl⟩ := hlogin
    obtain ⟨-, -, hget⟩ := create_spec hcreate
    rw [if_neg (hkept rfl)] at hget
    exact ⟨_, hget, rfl⟩

/-- Every operation that does not slip keeps the agreement. -/
theorem perform_agrees {config : CookieSessionsConfig} {info : ClientInfo} {loaded : Loaded}
    {request next : Request} {op : Op} {reply : Reply} (hagrees : Agrees sha256 loaded request)
    (hslips : ¬ Slips request op reply)
    (hperform : perform sha256 config info request op = some (next, reply)) :
    Agrees sha256 loaded next := by
  cases op with
  | set key value =>
      rcases perform_set hperform with ⟨rfl, -⟩ | ⟨session, hcurrent, rfl⟩
      · exact hagrees
      · exact hagrees.setData hcurrent rfl true
  | removeKey key =>
      rcases perform_removeKey hperform with ⟨rfl, -⟩ | ⟨session, hcurrent, rfl⟩
      · exact hagrees
      · exact hagrees.setData hcurrent rfl true
  | authenticateWith userId data destroyOk call =>
      have hkept : reply = .ok → call.id ∉ call.victims.map Row.id :=
        fun hok hmem => hslips (Or.inr ⟨hok, hmem⟩)
      rcases perform_authenticateWith hperform with
        ⟨rfl, -⟩ | ⟨hnone, hlogin⟩ | ⟨session, hcurrent, hdestroy, hlogin⟩
      · exact hagrees
      · exact login_agrees hlogin (fun _ => ⟨hnone, hagrees⟩) hkept
      · refine login_agrees hlogin (fun hfailed => ?_) hkept
        -- the old session is gone and there is no new one: this is a slip
        exact absurd (Or.inl ⟨by simp [hcurrent], hdestroy, hfailed⟩) hslips
  | rotate token rotateOk rotateNow touchOk touchNow =>
      rcases perform_rotate hperform with
        ⟨rfl, -⟩ | ⟨session, table, hcurrent, hrotateOk, hrotate, ⟨htouch, hfailed⟩ | rfl⟩
      · exact hagrees
      -- the hash was changed and the cookie was not
      · exact absurd ⟨hrotateOk, htouch, hfailed⟩ hslips
      · unfold Agrees at hagrees ⊢
        simp only [hcurrent] at hagrees ⊢
        obtain ⟨row, hget, -⟩ := hagrees
        rw [get?_touch, if_pos rfl, get?_rotateToken hrotate, if_pos rfl, hget, Option.map_some,
          Option.map_some]
        exact ⟨_, rfl, rfl⟩
  | logout destroyOk =>
      rcases perform_logout (Or.inl rfl) hperform with ⟨rfl, -⟩ | ⟨table, rfl⟩
      · exact hagrees
      · exact agrees_logout loaded request table
  | logoutAll destroyOk =>
      rcases perform_logout (Or.inr rfl) hperform with ⟨rfl, -⟩ | ⟨table, rfl⟩
      · exact hagrees
      · exact agrees_logout loaded request table
  | logoutOther destroyOk =>
      obtain ⟨table, rfl, hsame⟩ := perform_logoutOther hperform
      exact hagrees.setTable hsame
  | revoke id readOk destroyOk =>
      rcases perform_revoke hperform with rfl | ⟨hok, rfl⟩
      · exact hagrees
      · refine hagrees.setTable fun other hother => ?_
        rw [get?_destroy, if_neg]
        intro hid
        exact hslips ⟨other, hother, hid.symm, hok⟩

/-- Every operation of a handler keeps the agreement. -/
theorem run_agrees {config : CookieSessionsConfig} {info : ClientInfo} {loaded : Loaded}
    {request final : Request} {ops : List Op} (hagrees : Agrees sha256 loaded request)
    (hslips : ∀ before op after reply,
      Machine.Taken (performStep sha256 config info) request ops before op after →
      perform sha256 config info before op = some (after, reply) → ¬ Slips before op reply)
    (hrun : Machine.run (performStep sha256 config info) request ops = some final) :
    Agrees sha256 loaded final := by
  refine Machine.run_invariant_of_allowed (Agrees sha256 loaded)
    (fun before op => ∀ after reply, perform sha256 config info before op = some (after, reply) →
      ¬ Slips before op reply) ?_ hagrees ?_ hrun
  · intro before op after hbefore hallowed hstep
    obtain ⟨⟨next, reply⟩, hperform, rfl⟩ := Option.map_eq_some_iff.mp hstep
    exact perform_agrees hbefore (hallowed next reply hperform) hperform
  · rintro before op after htaken next reply hperform
    have hstep : performStep sha256 config info before op = some next := by
      rw [performStep, hperform, Option.map_some]
    obtain ⟨first, rest, rfl, hfirst, -⟩ := htaken
    exact hslips before op next reply ⟨first, rest, rfl, hfirst, hstep⟩ hperform

/-! ## The response -/

theorem load_sessionToken {config : CookieSessionsConfig} {info : ClientInfo}
    {cookie : Option (List Char)} {call : LoadCall} {table table' : SessionTable} {loaded : Loaded}
    (hload : load sha256 config info cookie call table = (loaded, table')) :
    loaded.sessionToken = cookieToken cookie := by
  unfold load at hload
  simp only at hload
  split at hload
  · rw [Prod.mk.injEq] at hload
    rw [← hload.1]
  · split at hload <;> (rw [Prod.mk.injEq] at hload; rw [← hload.1])

/-- The response path keeps every row with its hash. -/
theorem persist_tokenHash (config : CookieSessionsConfig) (loaded : Loaded) (found : SessionData)
    (call : RespondCall) {request : Request} {id : String} {row : Row}
    (hget : request.table.get? id = some row) :
    ∃ row', (persist config loaded found request call).get? id = some row' ∧
      row'.tokenHash = row.tokenHash := by
  have hupdate : ∀ f : Row → Row, (∀ row, (f row).tokenHash = row.tokenHash) →
      ∃ row', (if id = found.id then (request.table.get? id).map f
        else request.table.get? id) = some row' ∧ row'.tokenHash = row.tokenHash := by
    intro f hf
    split
    · rw [hget, Option.map_some]
      exact ⟨f row, rfl, hf row⟩
    · exact ⟨row, hget, rfl⟩
  unfold persist
  simp only
  split
  · split
    · exact ⟨row, hget, rfl⟩
    · split
      · rw [get?_flush]
        exact hupdate _ fun _ => rfl
      · exact ⟨row, hget, rfl⟩
  · split
    · rw [get?_touch]
      exact hupdate _ fun _ => rfl
    · exact ⟨row, hget, rfl⟩

/-- A session that is current at the end is the one the cookie resolves to. -/
theorem respond_current {config : CookieSessionsConfig} {loaded : Loaded} {request : Request}
    {sent : Option (List Char)} (hagrees : Agrees sha256 loaded request)
    (htoken : loaded.sessionToken = cookieToken sent) (call : RespondCall) {session : SessionData}
    (hcurrent : request.current = some session) :
    ∃ token, cookieToken (cookieAfter sent (respond config loaded request call).2) = some token ∧
      resolve sha256 (respond config loaded request call).1 token = some session.id := by
  unfold Agrees at hagrees
  simp only [hcurrent] at hagrees
  obtain ⟨row, hget, hcookie⟩ := hagrees
  cases haction : request.action with
  | set token =>
      rw [haction] at hcookie
      simp only [respond, haction, cookieAfter, Option.some_or, cookieToken, Option.bind_some]
      exact ⟨token, token.fromHex_asHex, resolve_eq_some.mpr ⟨row, hget, hcookie⟩⟩
  | remove =>
      rw [haction] at hcookie
      exact hcookie.elim
  | none =>
      rw [haction] at hcookie
      obtain ⟨hloaded, token, hsent, hhash⟩ := hcookie
      obtain ⟨found, hfound⟩ := Option.ne_none_iff_exists'.mp hloaded
      obtain ⟨row', hget', hhash'⟩ := persist_tokenHash config loaded found call hget
      simp only [respond, haction, hfound]
      refine ⟨token, ?_, resolve_eq_some.mpr ⟨row', hget', hhash'.trans hhash⟩⟩
      -- the cookie is set again to the token that was sent, or left as it was
      split
      · simp only [hsent, Option.map_some, cookieAfter, Option.some_or, cookieToken,
          Option.bind_some, SessionToken.fromHex_asHex]
      · rw [cookieAfter, Option.none_or, ← htoken, hsent]

/-- Without a current session the cookie carries no token, or the session could
not be read and the cookie is left as it was sent. -/
theorem respond_none {config : CookieSessionsConfig} {loaded : Loaded} {request : Request}
    {sent : Option (List Char)} (hagrees : Agrees sha256 loaded request)
    (htoken : loaded.sessionToken = cookieToken sent) (call : RespondCall)
    (hcurrent : request.current = none) :
    cookieToken (cookieAfter sent (respond config loaded request call).2) = none ∨
      loaded.readFailed = true ∧
        cookieAfter sent (respond config loaded request call).2 = sent := by
  unfold Agrees at hagrees
  simp only [hcurrent] at hagrees
  rcases hagrees with haction | ⟨haction, hloaded⟩
  · simp only [respond, haction]
    exact Or.inl SessionToken.fromHex_nil
  · simp only [respond, haction, hloaded]
    split
    · exact Or.inl SessionToken.fromHex_nil
    · rename_i hkeep
      rw [cookieAfter, Option.none_or]
      cases hread : loaded.readFailed with
      | true => exact Or.inr ⟨rfl, rfl⟩
      | false =>
          left
          rw [← htoken]
          simpa [hread] using hkeep

/-- **Cookie, memory and store agree.**  For every sequence of operations, each
store call of which may fail, that contains no slip: a session is reported only
if its row is stored; after the response the cookie carries a token that
resolves to the session that is current; and if none is current the cookie
resolves to no session, except that a cookie whose session could not be read is
left as it was sent. -/
theorem agreement {config : CookieSessionsConfig} {info : ClientInfo}
    {sent : Option (List Char)} {loadCall : LoadCall} {table table' : SessionTable}
    {loaded : Loaded} {ops : List Op} {request : Request}
    (hload : load sha256 config info sent loadCall table = (loaded, table'))
    (hslips : ∀ before op after reply,
      Machine.Taken (performStep sha256 config info) (begin loaded table') ops before op after →
      perform sha256 config info before op = some (after, reply) → ¬ Slips before op reply)
    (hrun : Machine.run (performStep sha256 config info) (begin loaded table') ops = some request)
    (call : RespondCall) :
    (∀ session, request.current = some session →
      (∃ row, request.table.get? session.id = some row) ∧
      ∃ token, cookieToken (cookieAfter sent (respond config loaded request call).2) = some token ∧
        resolve sha256 (respond config loaded request call).1 token = some session.id) ∧
    (request.current = none →
      (∀ token, cookieToken (cookieAfter sent (respond config loaded request call).2) = some token →
        resolve sha256 (respond config loaded request call).1 token = none) ∨
      loaded.readFailed = true ∧
        cookieAfter sent (respond config loaded request call).2 = sent) := by
  have hagrees := run_agrees (agrees_begin hload) hslips hrun
  have htoken := load_sessionToken hload
  refine ⟨?_, ?_⟩
  · intro session hcurrent
    refine ⟨?_, respond_current hagrees htoken call hcurrent⟩
    unfold Agrees at hagrees
    simp only [hcurrent] at hagrees
    obtain ⟨row, hget, -⟩ := hagrees
    exact ⟨row, hget⟩
  · intro hcurrent
    refine (respond_none hagrees htoken call hcurrent).imp_left ?_
    intro hnone token hsome
    rw [hnone] at hsome
    cases hsome

/-- The handler rotates the session of the cookie: the client is left with the
new token. -/
theorem rotateSample_agrees : ∃ request,
    Machine.run (performStep sampleSha256 sampleConfig sampleInfo)
      (begin sampleLoaded.1 sampleLoaded.2) [rotateSample] = some request ∧
    ∃ token, cookieToken (cookieAfter (some (sampleToken 0).asHex)
        (respond sampleConfig sampleLoaded.1 request sampleRespond).2) = some token ∧
      resolve sampleSha256 (respond sampleConfig sampleLoaded.1 request sampleRespond).1 token =
        some "session" := by
  refine ⟨_, rfl, ((agreement (show load sampleSha256 sampleConfig sampleInfo
    (some (sampleToken 0).asHex) sampleLoad sampleTable = _ from rfl) ?_
    (show Machine.run (performStep sampleSha256 sampleConfig sampleInfo)
      (begin sampleLoaded.1 sampleLoaded.2) [rotateSample] = _ from rfl) sampleRespond).1
      sampleSession rfl).2⟩
  rintro before op after reply htaken -
  have hop : op = rotateSample := List.mem_singleton.mp htaken.mem
  subst hop
  simp [Slips, rotateSample]

/-- What is loaded when the session of the cookie cannot be read. -/
def unreadLoaded : Loaded × SessionTable :=
  load sampleSha256 sampleConfig sampleInfo (some (sampleToken 0).asHex)
    { sampleLoad with readOk := false } sampleTable

/-- The handler of a request whose session cannot be read does nothing: no
session is current, and the cookie still resolves to the stored one. -/
theorem unread_cookie_kept :
    (begin unreadLoaded.1 unreadLoaded.2).current = none ∧
      cookieToken (cookieAfter (some (sampleToken 0).asHex) (respond sampleConfig unreadLoaded.1
        (begin unreadLoaded.1 unreadLoaded.2) sampleRespond).2) = some (sampleToken 0) ∧
      resolve sampleSha256 (respond sampleConfig unreadLoaded.1
        (begin unreadLoaded.1 unreadLoaded.2) sampleRespond).1 (sampleToken 0) =
          some "session" := by
  have hset : (respond sampleConfig unreadLoaded.1
      (begin unreadLoaded.1 unreadLoaded.2) sampleRespond).2 = none := rfl
  refine ⟨rfl, ?_, rfl⟩
  rw [hset, cookieAfter, Option.none_or]
  exact SessionToken.fromHex_asHex (sampleToken 0)

end Modo.Sessions.Cookie
