import Modo.Json
import Modo.Lib.Overflow
import Modo.Lib.Table
import Modo.Session.Token
import Modo.Time

/-!
# The session store

`SessionStore` keeps the sessions of both transports in one table, with the
constraints of the documented schema: the primary key `id` and the unique
`session_token_hash`.  Every method is one statement, except `create`, which
inserts and then trims the user's sessions to the allowed number.

A statement that reads the clock takes the instant as an argument.  The rows a
trim evicts are an argument too: among rows that share a `last_active_at` SQL
may choose, and `trim` accepts every choice SQLite may make and no other.
-/

namespace Modo.Sessions

open Overflow (asI64)

/-- The fields of `CookieSessionsConfig` the store and a request read. -/
structure CookieSessionsConfig where
  sessionTtlSecs : ℕ := 2592000
  touchIntervalSecs : ℕ := 300
  maxSessionsPerUser : ℕ := 10
  validateFingerprint : Bool := true

/-- `ClientInfo`. -/
structure ClientInfo where
  ip : Option String
  userAgent : Option String
  deviceName : Option String
  deviceType : Option String
  fingerprint : Option String

/-- `SessionData`. -/
structure SessionData where
  id : String
  userId : String
  ipAddress : String
  userAgent : String
  deviceName : String
  deviceType : String
  fingerprint : String
  data : Json
  createdAt : DateTime
  lastActiveAt : DateTime
  expiresAt : DateTime
  deriving DecidableEq

/-- A row of `authenticated_sessions`. -/
structure Row where
  tokenHash : String
  session : SessionData
  deriving DecidableEq

/-- The primary key. -/
def Row.id (row : Row) : String := row.session.id

/-- The unique index. -/
def Row.slot (row : Row) : Option String := some row.tokenHash

/-- The table `authenticated_sessions`. -/
abbrev SessionTable := Table Row.id Row.slot

/-! ## Reading -/

/-- `expires_at > now`. -/
def Row.isActive (now : DateTime) (row : Row) : Bool := decide (now.textLT row.session.expiresAt)

/-- `read_by_token_hash`. -/
def readByTokenHash (hash : String) (now : DateTime) (table : SessionTable) : Option SessionData :=
  ((table.find? hash).filter (Row.isActive now)).map Row.session

/-- `read_by_token`. -/
def readByToken (sha256 : List UInt8 → String) (token : SessionToken) (now : DateTime)
    (table : SessionTable) : Option SessionData :=
  readByTokenHash (token.hash sha256) now table

/-- `read`. -/
def read (id : String) (table : SessionTable) : Option SessionData :=
  (table.get? id).map Row.session

/-- The session a token belongs to, active or not. -/
def resolve (sha256 : List UInt8 → String) (table : SessionTable) (token : SessionToken) :
    Option String :=
  (table.find? (token.hash sha256)).map Row.id

/-! ## Creating -/

/-- The session `create` inserts.  Where chrono's sum panics, the call ends before
its insert, as one whose insert fails. -/
def newSession (ttlSecs : ℕ) (info : ClientInfo) (userId : String) (data : Option Json)
    (id : String) (now : DateTime) : SessionData where
  id := id
  userId := userId
  ipAddress := info.ip.getD ""
  userAgent := info.userAgent.getD ""
  deviceName := info.deviceName.getD ""
  deviceType := info.deviceType.getD ""
  fingerprint := info.fingerprint.getD ""
  data := data.getD (.object [])
  createdAt := now
  lastActiveAt := now
  expiresAt := now.addSeconds (asI64 ttlSecs)

/-- The active sessions of a user. -/
def activeRows (userId : String) (now : DateTime) (table : SessionTable) : List Row :=
  table.rows.filter fun row => decide (row.session.userId = userId) && row.isActive now

/-- `COUNT(*) - ?5`, with `max_sessions_per_user as i64`. -/
def excess (count max : ℕ) : ℤ := count - asI64 max

/-- The trim of `create`: delete the least recently active of the user's active
sessions, as many as there are above `max`.  It is `none` when `victims` is not
an answer of the inner `SELECT`: so is none when the difference leaves the
integers of SQLite, which makes it a real, and `LIMIT` refuses that. -/
def trim (userId : String) (now : DateTime) (max : ℕ) (victims : List Row)
    (table : SessionTable) : Option SessionTable :=
  let active := activeRows userId now table
  if excess active.length max < 2 ^ 63 ∧
      -- `MAX(0, ..)`
      IsLimited (fun a b => a.session.lastActiveAt.textLE b.session.lastActiveAt)
        (excess active.length max).toNat active victims then
    some (table.delete fun row => decide (row.id ∈ victims.map Row.id))
  else none

/-- What a call of `SessionStore::create` draws, and how its two statements end. -/
structure CreateCall where
  id : String
  token : SessionToken
  now : DateTime
  insertOk : Bool
  trimOk : Bool
  /-- The rows the trim evicts. -/
  victims : List Row

/-- `create`: the table, and what it returns unless a statement fails.  It is
`none` when the victims are not an answer of the trim's `SELECT`. -/
def create (sha256 : List UInt8 → String) (config : CookieSessionsConfig) (info : ClientInfo)
    (userId : String) (data : Option Json) (call : CreateCall) (table : SessionTable) :
    Option (SessionTable × Option (SessionData × SessionToken)) :=
  let session := newSession config.sessionTtlSecs info userId data call.id call.now
  let inserted :=
    if call.insertOk then table.insert ⟨call.token.hash sha256, session⟩ else none
  match inserted with
  | none => some (table, none)
  | some inserted =>
      if call.trimOk then
        (trim userId call.now config.maxSessionsPerUser call.victims inserted).map
          fun trimmed => (trimmed, some (session, call.token))
      else some (inserted, none)

/-! ## Deleting -/

/-- `destroy`. -/
def destroy (id : String) (table : SessionTable) : SessionTable :=
  table.delete fun row => decide (row.id = id)

/-- `destroy_all_for_user`. -/
def destroyAllForUser (userId : String) (table : SessionTable) : SessionTable :=
  table.delete fun row => decide (row.session.userId = userId)

/-- `destroy_all_except`. -/
def destroyAllExcept (userId keepId : String) (table : SessionTable) : SessionTable :=
  table.delete fun row => decide (row.session.userId = userId ∧ row.id ≠ keepId)

/-- `cleanup_expired`. -/
def cleanupExpired (now : DateTime) (table : SessionTable) : SessionTable :=
  table.delete fun row => decide (row.session.expiresAt.textLT now)

/-! ## Updating -/

/-- The `SET` list of `rotate_token` and `rotate_token_to`. -/
def Row.setToken (hash : String) (now : DateTime) (row : Row) : Row :=
  { tokenHash := hash, session := { row.session with lastActiveAt := now } }

@[simp] theorem Row.setToken_id (hash : String) (now : DateTime) (row : Row) :
    (row.setToken hash now).id = row.id := rfl

/-- `rotate_token` and `rotate_token_to`: they fail when another session has the
new hash. -/
def rotateToken (id hash : String) (now : DateTime) (table : SessionTable) :
    Option SessionTable :=
  table.update (fun row => decide (row.id = id)) (Row.setToken hash now)
    (Row.setToken_id hash now)

/-- The `SET` list of `flush`. -/
def Row.setData (data : Json) (now expiresAt : DateTime) (row : Row) : Row :=
  { row with
    session := { row.session with data := data, lastActiveAt := now, expiresAt := expiresAt } }

@[simp] theorem Row.setData_id (data : Json) (now expiresAt : DateTime) (row : Row) :
    (row.setData data now expiresAt).id = row.id := rfl

theorem Row.slot_setData (data : Json) (now expiresAt : DateTime) (row : Row) :
    (row.setData data now expiresAt).slot = row.slot := rfl

/-- `flush`. -/
def flush (id : String) (data : Json) (now expiresAt : DateTime) (table : SessionTable) :
    SessionTable :=
  table.modify (fun row => decide (row.id = id)) (Row.setData data now expiresAt)
    (Row.setData_id data now expiresAt)
    (fun row _ _ => Or.inl (row.slot_setData data now expiresAt))

/-- The `SET` list of `touch`. -/
def Row.setTouched (now expiresAt : DateTime) (row : Row) : Row :=
  { row with session := { row.session with lastActiveAt := now, expiresAt := expiresAt } }

@[simp] theorem Row.setTouched_id (now expiresAt : DateTime) (row : Row) :
    (row.setTouched now expiresAt).id = row.id := rfl

theorem Row.slot_setTouched (now expiresAt : DateTime) (row : Row) :
    (row.setTouched now expiresAt).slot = row.slot := rfl

/-- `touch`. -/
def touch (id : String) (now expiresAt : DateTime) (table : SessionTable) : SessionTable :=
  table.modify (fun row => decide (row.id = id)) (Row.setTouched now expiresAt)
    (Row.setTouched_id now expiresAt)
    (fun row _ _ => Or.inl (row.slot_setTouched now expiresAt))

/-! ## What the statements do to the row under an id -/

/-- A token belongs to the session whose row holds its hash. -/
theorem resolve_eq_some {sha256 : List UInt8 → String} {table : SessionTable}
    {token : SessionToken} {id : String} :
    resolve sha256 table token = some id ↔
      ∃ row, table.get? id = some row ∧ row.tokenHash = token.hash sha256 := by
  unfold resolve
  rw [Option.map_eq_some_iff]
  constructor
  · rintro ⟨row, hfind, rfl⟩
    obtain ⟨hmem, hslot⟩ := Table.find?_eq_some.mp hfind
    exact ⟨row, Table.get?_eq_some.mpr ⟨hmem, rfl⟩, Option.some.inj hslot⟩
  · rintro ⟨row, hget, hhash⟩
    obtain ⟨hmem, hid⟩ := Table.get?_eq_some.mp hget
    exact ⟨row, Table.find?_eq_some.mpr ⟨hmem, congrArg some hhash⟩, hid⟩

/-- The row that is read by its hash is stored under its id. -/
theorem get?_of_readByTokenHash {hash : String} {now : DateTime} {table : SessionTable}
    {session : SessionData} (hread : readByTokenHash hash now table = some session) :
    ∃ row, table.get? session.id = some row ∧ row.session = session ∧ row.tokenHash = hash ∧
      now.textLT session.expiresAt := by
  unfold readByTokenHash at hread
  obtain ⟨row, hfilter, rfl⟩ := Option.map_eq_some_iff.mp hread
  obtain ⟨hfind, hactive⟩ := Option.filter_eq_some_iff.mp hfilter
  obtain ⟨hmem, hslot⟩ := Table.find?_eq_some.mp hfind
  exact ⟨row, Table.get?_eq_some.mpr ⟨hmem, rfl⟩, rfl, Option.some.inj hslot,
    of_decide_eq_true hactive⟩

/-- A session whose row is active is read by its hash. -/
theorem readByTokenHash_eq_some {table : SessionTable} {id : String} {row : Row} {now : DateTime}
    (hget : table.get? id = some row) (hactive : now.textLT row.session.expiresAt) :
    readByTokenHash row.tokenHash now table = some row.session := by
  have hfind : table.find? row.tokenHash = some row :=
    Table.find?_eq_some.mpr ⟨Table.mem_of_get? hget, rfl⟩
  have hfilter : Row.isActive now row = true := decide_eq_true hactive
  rw [readByTokenHash, hfind, Option.filter_some, if_pos hfilter, Option.map_some]

theorem get?_destroy (id : String) (table : SessionTable) (k : String) :
    (destroy id table).get? k = if k = id then none else table.get? k := by
  unfold destroy
  rw [Table.get?_delete_key]

/-- Logging out the other sessions spares the one to keep. -/
theorem get?_destroyAllExcept_self (userId keepId : String) (table : SessionTable) :
    (destroyAllExcept userId keepId table).get? keepId = table.get? keepId := by
  unfold destroyAllExcept
  rw [Table.get?_delete]
  cases hget : table.get? keepId with
  | none => rfl
  | some row =>
      have hid : row.id = keepId := Table.get?_key hget
      simp [hid]

/-- A deletion keeps a row or removes it. -/
theorem get?_delete_cases (p : Row → Bool) (table : SessionTable) (k : String) :
    (table.delete p).get? k = table.get? k ∨ (table.delete p).get? k = none := by
  rw [Table.get?_delete]
  cases table.get? k with
  | none => exact Or.inl rfl
  | some row =>
      cases hp : p row with
      | true => exact Or.inr (by simp [hp])
      | false => exact Or.inl (by simp [hp])

theorem get?_trim {userId : String} {now : DateTime} {max : ℕ} {victims : List Row}
    {table table' : SessionTable} (htrim : trim userId now max victims table = some table')
    (k : String) :
    table'.get? k = if k ∈ victims.map Row.id then none else table.get? k := by
  unfold trim at htrim
  simp only at htrim
  split at htrim
  · rw [Option.some.injEq] at htrim
    subst htrim
    rw [Table.get?_delete]
    cases hget : table.get? k with
    | none => simp
    | some row =>
        have hid : row.id = k := Table.get?_key hget
        by_cases hk : k ∈ victims.map Row.id <;>
          simp only [Option.filter_some, hid, hk, decide_true, decide_false, Bool.not_true,
            Bool.not_false, Bool.false_eq_true, if_true, if_false]
  · cases htrim

/-- Everything `create` can do: nothing, insert its row and fail, or insert its
row, trim and return. -/
theorem create_cases {sha256 : List UInt8 → String} {config : CookieSessionsConfig}
    {info : ClientInfo} {userId : String} {data : Option Json} {call : CreateCall}
    {table table' : SessionTable} {result : Option (SessionData × SessionToken)}
    (hcreate : create sha256 config info userId data call table = some (table', result)) :
    (table' = table ∧ result = none) ∨
    ∃ inserted, table.insert ⟨call.token.hash sha256,
          newSession config.sessionTtlSecs info userId data call.id call.now⟩ = some inserted ∧
      (table' = inserted ∧ result = none ∨
        trim userId call.now config.maxSessionsPerUser call.victims inserted = some table' ∧
        result = some (newSession config.sessionTtlSecs info userId data call.id call.now,
          call.token)) := by
  unfold create at hcreate
  simp only at hcreate
  split at hcreate
  · simp only [Option.some.injEq, Prod.mk.injEq] at hcreate
    exact Or.inl ⟨hcreate.1.symm, hcreate.2.symm⟩
  · rename_i inserted hinserted
    split at hinserted
    · refine Or.inr ⟨inserted, hinserted, ?_⟩
      split at hcreate
      · obtain ⟨trimmed, htrim, heq⟩ := Option.map_eq_some_iff.mp hcreate
        rw [Prod.mk.injEq] at heq
        obtain ⟨rfl, rfl⟩ := heq
        exact Or.inr ⟨htrim, rfl⟩
      · simp only [Option.some.injEq, Prod.mk.injEq] at hcreate
        exact Or.inl ⟨hcreate.1.symm, hcreate.2.symm⟩
    · cases hinserted

/-- A `create` that succeeds returns the session that it has inserted, and has trimmed. -/
theorem create_eq_some {sha256 : List UInt8 → String} {config : CookieSessionsConfig}
    {info : ClientInfo} {userId : String} {data : Option Json} {call : CreateCall}
    {table table' : SessionTable} {session : SessionData} {token : SessionToken}
    (hcreate : create sha256 config info userId data call table =
      some (table', some (session, token))) :
    session = newSession config.sessionTtlSecs info userId data call.id call.now ∧
      token = call.token ∧
      ∃ inserted, table.insert ⟨call.token.hash sha256,
          newSession config.sessionTtlSecs info userId data call.id call.now⟩ = some inserted ∧
        trim userId call.now config.maxSessionsPerUser call.victims inserted = some table' := by
  rcases create_cases hcreate with ⟨-, hnone⟩ | ⟨inserted, hinsert, ⟨-, hnone⟩ | ⟨htrim, hsome⟩⟩
  · cases hnone
  · cases hnone
  · rw [Option.some.injEq, Prod.mk.injEq] at hsome
    exact ⟨hsome.1, hsome.2, inserted, hinsert, htrim⟩

/-- A `create` that succeeds stores the session it returns under the token it
returns, and evicts the victims of its trim. -/
theorem create_spec {sha256 : List UInt8 → String} {config : CookieSessionsConfig}
    {info : ClientInfo} {userId : String} {data : Option Json} {call : CreateCall}
    {table table' : SessionTable} {session : SessionData} {token : SessionToken}
    (hcreate : create sha256 config info userId data call table =
      some (table', some (session, token))) :
    session.id = call.id ∧ session.data = data.getD (.object []) ∧
      table'.get? session.id =
        if call.id ∈ call.victims.map Row.id then none
        else some ⟨token.hash sha256, session⟩ := by
  obtain ⟨rfl, rfl, inserted, hinsert, htrim⟩ := create_eq_some hcreate
  refine ⟨rfl, rfl, ?_⟩
  rw [get?_trim htrim, Table.get?_insert hinsert]
  simp only [newSession, Row.id, if_true]

theorem get?_rotateToken {id hash : String} {now : DateTime} {table table' : SessionTable}
    (hrotate : rotateToken id hash now table = some table') (k : String) :
    table'.get? k =
      if k = id then (table.get? k).map (Row.setToken hash now) else table.get? k := by
  unfold rotateToken at hrotate
  rw [Table.get?_update hrotate, Table.map_setWhere_key]

theorem get?_flush (id : String) (data : Json) (now expiresAt : DateTime) (table : SessionTable)
    (k : String) :
    (flush id data now expiresAt table).get? k =
      if k = id then (table.get? k).map (Row.setData data now expiresAt) else table.get? k := by
  unfold flush
  rw [Table.get?_modify, Table.map_setWhere_key]

theorem get?_touch (id : String) (now expiresAt : DateTime) (table : SessionTable) (k : String) :
    (touch id now expiresAt table).get? k =
      if k = id then (table.get? k).map (Row.setTouched now expiresAt) else table.get? k := by
  unfold touch
  rw [Table.get?_modify, Table.map_setWhere_key]

end Modo.Sessions
