import Modo.Lib.Machine
import Modo.Session.Store

/-!
# One request with a cookie session

`CookieSessionMiddleware::call` loads the session of the cookie, runs the
handler and writes what is left to write; between the two the handler calls the
operations of `CookieSession`, in any order and number.

The outcome of every store call is an argument of the step that makes it: a call
marked as failed leaves the table alone, and a call that the table refuses
(`INSERT` and the rotates, on a unique column) fails too.  `load`, `perform` and
`respond` are the three parts of a request.
-/

namespace Modo.Sessions.Cookie

open Overflow (asI64)

/-- `SessionAction`. -/
inductive SessionAction where
  | none
  | set (token : SessionToken)
  | remove
  deriving DecidableEq

/-- The store and the `SessionState` of a request. -/
structure Request where
  table : SessionTable
  current : Option SessionData
  dirty : Bool
  action : SessionAction

/-- What an operation returns. -/
inductive Reply where
  | ok
  | unauthorized
  | notFound
  /-- A value cannot be serialised. -/
  | serializeFailed
  /-- A store call failed. -/
  | storeFailed
  deriving DecidableEq

/-! ## Data -/

/-- What `set` does to the session data. -/
def setKey (key : String) (value : Option Json) (data : Json) : Json :=
  match data, value with
  | .object members, some value => .object (Json.insertMember key value members)
  | _, _ => data

/-- What `remove_key` does to the session data. -/
def removeKey (key : String) (data : Json) : Json :=
  match data with
  | .object members => .object (Json.removeMember key members)
  | _ => data

/-! ## The operations -/

/-- An operation of `CookieSession`, with the outcomes of its store calls. -/
inductive Op where
  /-- The value as `serde_json::to_value` gives it. -/
  | set (key : String) (value : Option Json)
  | removeKey (key : String)
  | authenticateWith (userId : String) (data : Json) (destroyOk : Bool) (call : CreateCall)
  | rotate (token : SessionToken) (rotateOk : Bool) (rotateNow : DateTime) (touchOk : Bool)
      (touchNow : DateTime)
  | logout (destroyOk : Bool)
  | logoutAll (destroyOk : Bool)
  | logoutOther (destroyOk : Bool)
  | revoke (id : String) (readOk destroyOk : Bool)

/-- `CookieSession::authenticate`. -/
def Op.authenticate (userId : String) (destroyOk : Bool) (call : CreateCall) : Op :=
  .authenticateWith userId (.object []) destroyOk call

variable (sha256 : List UInt8 → String)

/-- The second half of `authenticate_with`. -/
def login (config : CookieSessionsConfig) (info : ClientInfo) (userId : String) (data : Json)
    (call : CreateCall) (request : Request) : Option (Request × Reply) :=
  match create sha256 config info userId (some data) call request.table with
  | none => none
  | some (table, none) => some ({ request with table := table }, .storeFailed)
  | some (table, some (session, token)) =>
      some ({ table := table, current := some session, dirty := false, action := .set token }, .ok)

/-- One operation.  It is `none` when the victims of a trim are not an answer of
its `SELECT`. -/
def perform (config : CookieSessionsConfig) (info : ClientInfo) (request : Request) :
    Op → Option (Request × Reply)
  | .set key value =>
      match request.current with
      | none => some (request, .ok)
      | some session =>
          match session.data, value with
          | .object members, some value =>
              let data := .object (Json.insertMember key value members)
              some ({ request with current := some { session with data := data }, dirty := true },
                .ok)
          | .object _, none => some (request, .serializeFailed)
          | _, _ => some (request, .ok)
  | .removeKey key =>
      match request.current with
      | none => some (request, .ok)
      | some session =>
          match session.data with
          | .object members =>
              if key ∈ members.map Prod.fst then
                let data := .object (Json.removeMember key members)
                some ({ request with
                  current := some { session with data := data }, dirty := true }, .ok)
              else some (request, .ok)
          | _ => some (request, .ok)
  | .authenticateWith userId data destroyOk call =>
      match request.current with
      | none => login sha256 config info userId data call request
      | some session =>
          if destroyOk then
            login sha256 config info userId data call
              { request with table := destroy session.id request.table }
          else some (request, .storeFailed)
  | .rotate token rotateOk rotateNow touchOk touchNow =>
      match request.current with
      | none => some (request, .unauthorized)
      | some session =>
          let rotated :=
            if rotateOk then rotateToken session.id (token.hash sha256) rotateNow request.table
            else none
          match rotated with
          | none => some (request, .storeFailed)
          | some table =>
              if touchOk then
                let expiresAt := touchNow.addSeconds (asI64 config.sessionTtlSecs)
                some ({ request with
                  table := touch session.id touchNow expiresAt table, action := .set token }, .ok)
              else some ({ request with table := table }, .storeFailed)
  | .logout destroyOk =>
      match request.current with
      | none => some ({ request with current := none, action := .remove }, .ok)
      | some session =>
          if destroyOk then
            some ({ request with
              table := destroy session.id request.table, current := none, action := .remove }, .ok)
          else some (request, .storeFailed)
  | .logoutAll destroyOk =>
      match request.current with
      | none => some ({ request with current := none, action := .remove }, .ok)
      | some session =>
          if destroyOk then
            some ({ request with
              table := destroyAllForUser session.userId request.table, current := none,
              action := .remove }, .ok)
          else some (request, .storeFailed)
  | .logoutOther destroyOk =>
      match request.current with
      | none => some (request, .unauthorized)
      | some session =>
          if destroyOk then
            some ({ request with
              table := destroyAllExcept session.userId session.id request.table }, .ok)
          else some (request, .storeFailed)
  | .revoke id readOk destroyOk =>
      match request.current with
      | none => some (request, .unauthorized)
      | some session =>
          if readOk then
            match read id request.table with
            | none => some (request, .notFound)
            | some target =>
                if target.userId ≠ session.userId then some (request, .notFound)
                else if destroyOk then
                  some ({ request with table := destroy id request.table }, .ok)
                else some (request, .storeFailed)
          else some (request, .storeFailed)

/-! ## The middleware -/

/-- The clock readings and outcomes of the calls made while loading. -/
structure LoadCall where
  readOk : Bool
  readNow : DateTime
  destroyOk : Bool
  touchNow : DateTime

/-- What `call` keeps from loading the session. -/
structure Loaded where
  sessionToken : Option SessionToken
  currentSession : Option SessionData
  readFailed : Bool
  shouldTouch : Bool

/-- The token a cookie value carries, once its signature has been verified. -/
def cookieToken (cookie : Option (List Char)) : Option SessionToken :=
  cookie.bind SessionToken.fromHex

/-- The session the cookie's token is read as. -/
def readSession (token : Option SessionToken) (call : LoadCall) (table : SessionTable) :
    Option SessionData × Bool :=
  match token with
  | none => (none, false)
  | some token =>
      if call.readOk then (readByToken sha256 token call.readNow table, false) else (none, true)

/-- The first half of `call`: read the session, and destroy it when the
fingerprint does not match. -/
def load (config : CookieSessionsConfig) (info : ClientInfo) (cookie : Option (List Char))
    (call : LoadCall) (table : SessionTable) : Loaded × SessionTable :=
  let token := cookieToken cookie
  let (found, readFailed) := readSession sha256 token call table
  match found with
  | none => (⟨token, none, readFailed, false⟩, table)
  | some session =>
      if config.validateFingerprint ∧ info.fingerprint ≠ some session.fingerprint then
        (⟨token, none, readFailed, false⟩,
          if call.destroyOk then destroy session.id table else table)
      else
        let due := session.lastActiveAt.addSeconds (asI64 config.touchIntervalSecs)
        (⟨token, some session, readFailed, decide (due ≤ call.touchNow)⟩, table)

/-- The `SessionState` the handler starts with. -/
def begin (loaded : Loaded) (table : SessionTable) : Request :=
  { table := table, current := loaded.currentSession, dirty := false, action := .none }

/-- The clock reading and outcomes of the calls made while responding. -/
structure RespondCall where
  now : DateTime
  flushOk : Bool
  touchOk : Bool

/-- What the response path without a cookie action writes to the store. -/
def persist (config : CookieSessionsConfig) (loaded : Loaded) (session : SessionData)
    (request : Request) (call : RespondCall) : SessionTable :=
  let expiresAt := call.now.addSeconds (asI64 config.sessionTtlSecs)
  if request.dirty then
    match request.current with
    | none => request.table
    | some memory =>
        if call.flushOk then flush session.id memory.data call.now expiresAt request.table
        else request.table
  else if loaded.shouldTouch ∧ call.touchOk then
    touch session.id call.now expiresAt request.table
  else request.table

/-- The second half of `call`: the table, and the value of the cookie set on the
response. -/
def respond (config : CookieSessionsConfig) (loaded : Loaded) (request : Request)
    (call : RespondCall) : SessionTable × Option (List Char) :=
  match request.action with
  | .set token => (request.table, some token.asHex)
  | .remove => (request.table, some [])
  | .none =>
      match loaded.currentSession with
      | some session =>
          (persist config loaded session request call,
            if request.dirty ∨ loaded.shouldTouch then loaded.sessionToken.map SessionToken.asHex
            else none)
      | none =>
          (request.table,
            if loaded.sessionToken.isSome ∧ loaded.readFailed = false then some [] else none)

/-- The cookie the client is left with: the one the response sets, else the one
it sent. -/
def cookieAfter (sent set : Option (List Char)) : Option (List Char) := set.or sent

/-! ## What loading finds -/

variable {sha256}

/-- A session that was loaded is in the table, under the hash of the token that
was sent. -/
theorem load_current {config : CookieSessionsConfig} {info : ClientInfo}
    {cookie : Option (List Char)} {call : LoadCall} {table table' : SessionTable} {loaded : Loaded}
    (hload : load sha256 config info cookie call table = (loaded, table')) {session : SessionData}
    (hcurrent : loaded.currentSession = some session) :
    ∃ token row, loaded.sessionToken = some token ∧ table'.get? session.id = some row ∧
      row.session = session ∧ row.tokenHash = token.hash sha256 := by
  unfold load at hload
  cases hcookie : cookieToken cookie with
  | none =>
      simp only [hcookie, readSession, Prod.mk.injEq] at hload
      rw [← hload.1] at hcurrent
      cases hcurrent
  | some token =>
      simp only [hcookie, readSession] at hload
      cases hok : call.readOk with
      | false =>
          simp only [hok, Bool.false_eq_true, if_false, Prod.mk.injEq] at hload
          rw [← hload.1] at hcurrent
          cases hcurrent
      | true =>
          simp only [hok, if_true] at hload
          cases hread : readByToken sha256 token call.readNow table with
          | none =>
              simp only [hread, Prod.mk.injEq] at hload
              rw [← hload.1] at hcurrent
              cases hcurrent
          | some found =>
              simp only [hread] at hload
              split at hload
              · rw [Prod.mk.injEq] at hload
                rw [← hload.1] at hcurrent
                cases hcurrent
              · rw [Prod.mk.injEq] at hload
                obtain ⟨hloaded, htable⟩ := hload
                subst hloaded htable
                rw [Option.some.injEq] at hcurrent
                subst hcurrent
                -- the token was read, and its session was not refused
                obtain ⟨row, hget, hsession, hhash, -⟩ := get?_of_readByTokenHash hread
                exact ⟨token, row, rfl, hget, hsession, hhash⟩

/-! ## What editing does -/

/-- The current session is the only one whose data is compared. -/
theorem edit_eq_of_current {edit : Json → Json} {session : SessionData}
    (hself : edit session.data = session.data) :
    ∀ other, some session = some other → edit other.data = other.data := by
  intro other hother
  rw [Option.some.injEq] at hother
  subst hother
  exact hself

/-- `set` leaves the request alone and the data is what it asks for already, or
it edits the data of the current session and marks the request dirty. -/
theorem perform_set {config : CookieSessionsConfig} {info : ClientInfo} {request next : Request}
    {reply : Reply} {key : String} {value : Option Json}
    (hperform : perform sha256 config info request (.set key value) = some (next, reply)) :
    (next = request ∧ ∀ session, request.current = some session →
      setKey key value session.data = session.data) ∨
    ∃ session, request.current = some session ∧ next = { request with
      current := some { session with data := setKey key value session.data }, dirty := true } := by
  cases hcurrent : request.current with
  | none =>
      simp only [perform, hcurrent, Option.some.injEq, Prod.mk.injEq] at hperform
      refine Or.inl ⟨hperform.1.symm, ?_⟩
      intro session hsome
      cases hsome
  | some session =>
      cases hdata : session.data with
      | object members =>
          cases value with
          | none =>
              simp only [perform, hcurrent, hdata, Option.some.injEq, Prod.mk.injEq] at hperform
              exact Or.inl ⟨hperform.1.symm, edit_eq_of_current (by simp [hdata, setKey])⟩
          | some value =>
              simp only [perform, hcurrent, hdata, Option.some.injEq, Prod.mk.injEq] at hperform
              exact Or.inr ⟨session, rfl, by rw [← hperform.1]; simp only [hdata, setKey]⟩
      | null | bool _ | number _ | string _ | array _ =>
          simp only [perform, hcurrent, hdata, Option.some.injEq, Prod.mk.injEq] at hperform
          exact Or.inl ⟨hperform.1.symm, edit_eq_of_current (by simp [hdata, setKey])⟩

theorem removeKey_eq_self {key : String} {members : List (String × Json)}
    (habsent : key ∉ members.map Prod.fst) :
    removeKey key (.object members) = .object members := by
  have hfilter : Json.removeMember key members = members := by
    unfold Json.removeMember
    rw [List.filter_eq_self]
    intro member hmember
    rw [decide_eq_true_eq]
    intro heq
    exact habsent (heq ▸ List.mem_map_of_mem hmember)
  simp only [removeKey, hfilter]

/-- `remove_key` likewise. -/
theorem perform_removeKey {config : CookieSessionsConfig} {info : ClientInfo}
    {request next : Request} {reply : Reply} {key : String}
    (hperform : perform sha256 config info request (.removeKey key) = some (next, reply)) :
    (next = request ∧ ∀ session, request.current = some session →
      removeKey key session.data = session.data) ∨
    ∃ session, request.current = some session ∧ next = { request with
      current := some { session with data := removeKey key session.data }, dirty := true } := by
  cases hcurrent : request.current with
  | none =>
      simp only [perform, hcurrent, Option.some.injEq, Prod.mk.injEq] at hperform
      refine Or.inl ⟨hperform.1.symm, ?_⟩
      intro session hsome
      cases hsome
  | some session =>
      cases hdata : session.data with
      | object members =>
          simp only [perform, hcurrent, hdata] at hperform
          split at hperform
          · rw [Option.some.injEq, Prod.mk.injEq] at hperform
            exact Or.inr ⟨session, rfl, by rw [← hperform.1]; simp only [hdata, removeKey]⟩
          · rename_i habsent
            rw [Option.some.injEq, Prod.mk.injEq] at hperform
            have hself : removeKey key session.data = session.data := by
              rw [hdata, removeKey_eq_self habsent]
            exact Or.inl ⟨hperform.1.symm, edit_eq_of_current hself⟩
      | null | bool _ | number _ | string _ | array _ =>
          simp only [perform, hcurrent, hdata, Option.some.injEq, Prod.mk.injEq] at hperform
          exact Or.inl ⟨hperform.1.symm, edit_eq_of_current (by simp [hdata, removeKey])⟩

/-! ## What the other operations do -/

/-- `authenticate_with` stops when it cannot destroy the current session, and
otherwise logs in. -/
theorem perform_authenticateWith {config : CookieSessionsConfig} {info : ClientInfo}
    {request next : Request} {reply : Reply} {userId : String} {data : Json} {destroyOk : Bool}
    {call : CreateCall}
    (hperform : perform sha256 config info request (.authenticateWith userId data destroyOk call) =
      some (next, reply)) :
    (next = request ∧ reply = .storeFailed) ∨
    (request.current = none ∧
      login sha256 config info userId data call request = some (next, reply)) ∨
    ∃ session, request.current = some session ∧ destroyOk = true ∧
      login sha256 config info userId data call
        { request with table := destroy session.id request.table } = some (next, reply) := by
  simp only [perform] at hperform
  split at hperform
  · rename_i hnone
    exact Or.inr (Or.inl ⟨hnone, hperform⟩)
  · rename_i session hcurrent
    split at hperform
    · rename_i hdestroy
      exact Or.inr (Or.inr ⟨session, hcurrent, hdestroy, hperform⟩)
    · rw [Option.some.injEq, Prod.mk.injEq] at hperform
      exact Or.inl ⟨hperform.1.symm, hperform.2.symm⟩

/-- `rotate` replaces the token of the current session, and then sets the cookie
unless the touch fails. -/
theorem perform_rotate {config : CookieSessionsConfig} {info : ClientInfo}
    {request next : Request} {reply : Reply} {token : SessionToken} {rotateOk touchOk : Bool}
    {rotateNow touchNow : DateTime}
    (hperform : perform sha256 config info request
      (.rotate token rotateOk rotateNow touchOk touchNow) = some (next, reply)) :
    (next = request ∧ (reply = .storeFailed ∨ request.current = none)) ∨
    ∃ session table, request.current = some session ∧ rotateOk = true ∧
      rotateToken session.id (token.hash sha256) rotateNow request.table = some table ∧
      (touchOk = false ∧ reply = .storeFailed ∨
        next = { request with
          table :=
            touch session.id touchNow (touchNow.addSeconds (asI64 config.sessionTtlSecs)) table,
          action := .set token }) := by
  simp only [perform] at hperform
  split at hperform
  · rename_i hnone
    rw [Option.some.injEq, Prod.mk.injEq] at hperform
    exact Or.inl ⟨hperform.1.symm, Or.inr hnone⟩
  · rename_i session hcurrent
    split at hperform
    · rw [Option.some.injEq, Prod.mk.injEq] at hperform
      exact Or.inl ⟨hperform.1.symm, Or.inl hperform.2.symm⟩
    · rename_i table hrotated
      split at hrotated
      · rename_i hrotateOk
        refine Or.inr ⟨session, table, hcurrent, hrotateOk, hrotated, ?_⟩
        split at hperform
        · rw [Option.some.injEq, Prod.mk.injEq] at hperform
          exact Or.inr hperform.1.symm
        · rename_i htouch
          rw [Option.some.injEq, Prod.mk.injEq] at hperform
          exact Or.inl ⟨by simpa using htouch, hperform.2.symm⟩
      · cases hrotated

/-- `logout` and `logout_all` end the session in memory, unless the delete
fails. -/
theorem perform_logout {config : CookieSessionsConfig} {info : ClientInfo}
    {request next : Request} {reply : Reply} {op : Op} {destroyOk : Bool}
    (hop : op = .logout destroyOk ∨ op = .logoutAll destroyOk)
    (hperform : perform sha256 config info request op = some (next, reply)) :
    (next = request ∧ reply = .storeFailed) ∨
    ∃ table, next = { request with table := table, current := none, action := .remove } := by
  rcases hop with rfl | rfl
  all_goals
    simp only [perform] at hperform
    split at hperform
    · rw [Option.some.injEq, Prod.mk.injEq] at hperform
      exact Or.inr ⟨request.table, hperform.1.symm⟩
    · split at hperform
      · rw [Option.some.injEq, Prod.mk.injEq] at hperform
        exact Or.inr ⟨_, hperform.1.symm⟩
      · rw [Option.some.injEq, Prod.mk.injEq] at hperform
        exact Or.inl ⟨hperform.1.symm, hperform.2.symm⟩

/-- `logout_other` keeps the current session. -/
theorem perform_logoutOther {config : CookieSessionsConfig} {info : ClientInfo}
    {request next : Request} {reply : Reply} {destroyOk : Bool}
    (hperform : perform sha256 config info request (.logoutOther destroyOk) = some (next, reply)) :
    ∃ table, next = { request with table := table } ∧ ∀ session,
      request.current = some session → table.get? session.id = request.table.get? session.id := by
  simp only [perform] at hperform
  split at hperform
  · rw [Option.some.injEq, Prod.mk.injEq] at hperform
    exact ⟨request.table, hperform.1.symm, fun _ _ => rfl⟩
  · rename_i session hcurrent
    split at hperform
    · rw [Option.some.injEq, Prod.mk.injEq] at hperform
      refine ⟨_, hperform.1.symm, ?_⟩
      intro other hother
      rw [hcurrent, Option.some.injEq] at hother
      subst hother
      exact get?_destroyAllExcept_self session.userId session.id request.table
    · rw [Option.some.injEq, Prod.mk.injEq] at hperform
      exact ⟨request.table, hperform.1.symm, fun _ _ => rfl⟩

/-- `revoke` deletes the session it is given, or nothing. -/
theorem perform_revoke {config : CookieSessionsConfig} {info : ClientInfo}
    {request next : Request} {reply : Reply} {id : String} {readOk destroyOk : Bool}
    (hperform : perform sha256 config info request (.revoke id readOk destroyOk) =
      some (next, reply)) :
    next = request ∨ reply = .ok ∧ next = { request with table := destroy id request.table } := by
  simp only [perform] at hperform
  split at hperform
  · rw [Option.some.injEq, Prod.mk.injEq] at hperform
    exact Or.inl hperform.1.symm
  · split at hperform
    · split at hperform
      · rw [Option.some.injEq, Prod.mk.injEq] at hperform
        exact Or.inl hperform.1.symm
      · split at hperform
        · rw [Option.some.injEq, Prod.mk.injEq] at hperform
          exact Or.inl hperform.1.symm
        · split at hperform
          · rw [Option.some.injEq, Prod.mk.injEq] at hperform
            exact Or.inr ⟨hperform.2.symm, hperform.1.symm⟩
          · rw [Option.some.injEq, Prod.mk.injEq] at hperform
            exact Or.inl hperform.1.symm
    · rw [Option.some.injEq, Prod.mk.injEq] at hperform
      exact Or.inl hperform.1.symm

/-! ## A sample request -/

/-- The default configuration, without fingerprints. -/
def sampleConfig : CookieSessionsConfig := { validateFingerprint := false }

/-- A client that sends no headers. -/
def sampleInfo : ClientInfo := ⟨none, none, none, none, none⟩

/-- A session with empty data. -/
def sampleSession : SessionData :=
  newSession 2592000 sampleInfo "user" none "session" (.ofSecs 1767225600)

/-- The table with that session. -/
def sampleTable : SessionTable :=
  (Table.empty.insert ⟨(sampleToken 0).hash sampleSha256, sampleSession⟩).getD Table.empty

/-- All calls succeed. -/
def sampleLoad : LoadCall := ⟨true, .ofSecs 1767225610, true, .ofSecs 1767225610⟩

/-- What is loaded for the session's cookie. -/
def sampleLoaded : Loaded × SessionTable :=
  load sampleSha256 sampleConfig sampleInfo (some (sampleToken 0).asHex) sampleLoad sampleTable

/-- All calls succeed. -/
def sampleRespond : RespondCall := ⟨.ofSecs 1767225620, true, true⟩

/-- The handler rotates the session. -/
def rotateSample : Op :=
  .rotate (sampleToken 1) true (.ofSecs 1767225615) true (.ofSecs 1767225615)

end Modo.Sessions.Cookie
