import Modo.ApiKey.Token
import Modo.Lib.Machine
import Modo.Lib.Overflow
import Modo.Lib.Table
import Modo.Time

/-!
# The API key store

`ApiKeyStore` over its SQLite backend: the record of a key, the statements of
the backend, and the calls of the store.  `verify` reads the record with one
statement; `revoke` and `refresh` look the key up and then update it by a second
statement; the touch of the last use is spawned by `verify` and runs at any
later time, or never.

SHA-256 and `DateTime::parse_from_rfc3339` come from crates and are parameters.
The timestamps `now_utc` writes are texts nothing compares, so they are
arguments.

A run keeps the log of what has happened to the keys, newest first: it says what
was issued, revoked and refreshed without looking at the table.
-/

namespace Modo.ApiKey

open Overflow (asI64)
open Utf8 (asBytes)

/-! ## Records -/

/-- `CreateKeyRequest`. -/
structure CreateKeyRequest where
  tenantId : String
  name : String
  scopes : List String
  expiresAt : Option String

/-- `ApiKeyRecord`, a row of `api_keys`. -/
structure ApiKeyRecord where
  id : List Char
  keyHash : String
  tenantId : String
  name : String
  scopes : List String
  expiresAt : Option String
  lastUsedAt : Option String
  createdAt : String
  revokedAt : Option String
  deriving DecidableEq

/-- `ApiKeyMeta`. -/
structure ApiKeyMeta where
  id : List Char
  tenantId : String
  name : String
  scopes : List String
  expiresAt : Option String
  lastUsedAt : Option String
  createdAt : String
  deriving DecidableEq

/-- `into_meta`. -/
def ApiKeyRecord.intoMeta (record : ApiKeyRecord) : ApiKeyMeta :=
  ⟨record.id, record.tenantId, record.name, record.scopes, record.expiresAt, record.lastUsedAt,
    record.createdAt⟩

/-- `ApiKeyCreated`. -/
structure ApiKeyCreated where
  id : List Char
  rawToken : List Char
  name : String
  scopes : List String
  tenantId : String
  expiresAt : Option String
  createdAt : String

/-- The table has no unique index besides its primary key. -/
def ApiKeyRecord.slot (_ : ApiKeyRecord) : Option Unit := none

/-- The table `api_keys`. -/
abbrev KeyTable := Table ApiKeyRecord.id ApiKeyRecord.slot

/-! ## The backend -/

/-- `update_last_used`. -/
def updateLastUsed (id : List Char) (timestamp : String) (table : KeyTable) : KeyTable :=
  table.modify (fun record => decide (record.id = id))
    (fun record => { record with lastUsedAt := some timestamp }) (fun _ => rfl)
    (fun _ _ _ => Or.inl rfl)

/-- `update_expires_at`. -/
def updateExpiresAt (id : List Char) (expiresAt : Option String) (table : KeyTable) : KeyTable :=
  table.modify (fun record => decide (record.id = id))
    (fun record => { record with expiresAt := expiresAt }) (fun _ => rfl)
    (fun _ _ _ => Or.inl rfl)

/-- `revoke` of the backend. -/
def updateRevokedAt (id : List Char) (revokedAt : String) (table : KeyTable) : KeyTable :=
  table.modify (fun record => decide (record.id = id))
    (fun record => { record with revokedAt := some revokedAt }) (fun _ => rfl)
    (fun _ _ _ => Or.inl rfl)

/-! ## The calls -/

/-- A store; `new` and `from_backend` refuse an invalid configuration. -/
structure ApiKeyStore where
  config : ApiKeyConfig
  valid : config.validate = .ok ()

variable (sha256 : List UInt8 → String) (parseRfc3339 : String → Option DateTime)

/-- `hash_secret`; `sha256` is the hex text of the digest. -/
def hashSecret (secret : List Char) : String := sha256 (asBytes (String.ofList secret))

/-- `verify_hash`. -/
def verifyHash (secret : List Char) (storedHash : String) : Bool :=
  decide (hashSecret sha256 secret = storedHash)

/-- The check of `expires_at` in `create` and `refresh`. -/
def checkExpiresAt : Option String → Except Failure Unit
  | none => .ok ()
  | some text =>
      if (parseRfc3339 text).isSome then .ok ()
      else .error (.badRequest "expires_at must be a valid RFC 3339 timestamp")

/-- The checks of `create`. -/
def checkRequest (request : CreateKeyRequest) : Except Failure Unit :=
  if request.tenantId = "" then .error (.badRequest "tenant_id is required")
  else if request.name = "" then .error (.badRequest "name is required")
  else checkExpiresAt parseRfc3339 request.expiresAt

/-- The record `create` stores. -/
def newRecord (request : CreateKeyRequest) (ulid secret : List Char) (now : String) :
    ApiKeyRecord where
  id := ulid
  keyHash := hashSecret sha256 secret
  tenantId := request.tenantId
  name := request.name
  scopes := request.scopes
  expiresAt := request.expiresAt
  lastUsedAt := none
  createdAt := now
  revokedAt := none

/-- `create`: the table and what is returned. -/
def create (config : ApiKeyConfig) (request : CreateKeyRequest) (ulid : Ulid)
    (secret : Secret config.secretLength) (now : String) (table : KeyTable) :
    Except Failure (KeyTable × ApiKeyCreated) := do
  checkRequest parseRfc3339 request
  match table.insert (newRecord sha256 request ulid.text secret.text now) with
  | none => .error .database
  | some stored =>
      .ok (stored, ⟨ulid.text, formatToken config.keyPrefix ulid.text secret.text, request.name,
        request.scopes, request.tenantId, request.expiresAt, now⟩)

/-- `expires_at_passed`, with `now` for the clock. -/
def expiresAtPassed (now : DateTime) (text : String) : Bool :=
  match parseRfc3339 text with
  | some expiresAt => decide (expiresAt ≤ now)
  | none => true

/-- `DUMMY_HASH`. -/
def dummyHash : String := "0000000000000000000000000000000000000000000000000000000000000000"

/-- The record `verify` accepts. -/
def verifyRecord (config : ApiKeyConfig) (rawToken : List Char) (now : DateTime)
    (table : KeyTable) : Except Failure ApiKeyRecord := do
  let parsed ← parseToken rawToken config.keyPrefix
  let record := parsed.bind fun token => table.get? token.id
  let unusable := (record.map fun found =>
    found.revokedAt.isSome ||
      (found.expiresAt.map (expiresAtPassed parseRfc3339 now)).getD false).getD true
  let secret := (parsed.map ParsedToken.secret).getD []
  let storedHash := (record.map ApiKeyRecord.keyHash).getD dummyHash
  if unusable || !verifyHash sha256 secret storedHash then
    .error (.unauthorized "invalid API key")
  else
    match record with
    | some found => .ok found
    -- `expect("hash_ok implies record")`
    | none => .error .panic

/-- `verify`. -/
def verify (config : ApiKeyConfig) (rawToken : List Char) (now : DateTime) (table : KeyTable) :
    Except Failure ApiKeyMeta :=
  (verifyRecord sha256 parseRfc3339 config rawToken now table).map ApiKeyRecord.intoMeta

/-- `signed_duration_since(..).num_seconds()`, which rounds toward zero. -/
def elapsedSecs (now last : DateTime) : ℤ :=
  ((now.secs - last.secs) * 1_000_000_000 + (now.nanos - last.nanos)).tdiv 1_000_000_000

/-- The decision of `maybe_touch`. -/
def shouldTouch (config : ApiKeyConfig) (record : ApiKeyRecord) (now : DateTime) : Bool :=
  match record.lastUsedAt with
  | none => true
  | some text =>
      match parseRfc3339 text with
      | some last => decide (asI64 config.touchThresholdSecs ≤ elapsedSecs now last)
      | none => true

/-- `list`, up to the order of its rows. -/
def list (tenantId : String) (table : KeyTable) : List ApiKeyMeta :=
  (table.rows.filter fun record =>
    decide (record.tenantId = tenantId) && record.revokedAt.isNone).map ApiKeyRecord.intoMeta

/-! ## Runs -/

/-- What happened to a key. -/
inductive Event where
  /-- `create` returned this token. -/
  | created (id rawToken : List Char) (expiresAt : Option String)
  | revoked (id : List Char)
  | refreshed (id : List Char) (expiresAt : Option String)
  deriving DecidableEq

/-- The table, the calls and tasks that still have a statement to run, and the log. -/
structure State where
  table : KeyTable
  /-- Spawned touches. -/
  touches : List (List Char)
  /-- Calls of `revoke` that have found their key. -/
  revokes : List (List Char)
  /-- Calls of `refresh` that have found their key. -/
  refreshes : List (List Char × Option String)
  /-- What has happened, newest first. -/
  log : List Event

/-- The empty store. -/
def State.initial : State := ⟨Table.empty, [], [], [], []⟩

/-- A step of a run. -/
inductive Action (config : ApiKeyConfig) where
  | create (request : CreateKeyRequest) (ulid : Ulid) (secret : Secret config.secretLength)
      (now : String)
  /-- `verify`; the clock is read for the expiry and again for the touch. -/
  | verify (rawToken : List Char) (now later : DateTime)
  /-- A spawned touch runs. -/
  | touch (id : List Char) (now : String)
  /-- The lookup of `revoke`. -/
  | revoke (id : List Char)
  /-- The update of `revoke`. -/
  | revokeUpdate (id : List Char) (now : String)
  /-- The check and the lookup of `refresh`. -/
  | refresh (id : List Char) (expiresAt : Option String)
  /-- The update of `refresh`. -/
  | refreshUpdate (id : List Char) (expiresAt : Option String)
  | list (tenantId : String)

/-- One step.  A call that fails changes nothing. -/
def step (store : ApiKeyStore) (state : State) : Action store.config → Option State
  | .create request ulid secret now =>
      match create sha256 parseRfc3339 store.config request ulid secret now state.table with
      | .error _ => some state
      | .ok (table, created) =>
          some { state with
            table := table,
            log := .created created.id created.rawToken created.expiresAt :: state.log }
  | .verify rawToken now later =>
      match verifyRecord sha256 parseRfc3339 store.config rawToken now state.table with
      | .error _ => some state
      | .ok record =>
          if shouldTouch parseRfc3339 store.config record later then
            some { state with touches := record.id :: state.touches }
          else some state
  | .touch id now =>
      if id ∈ state.touches then
        some { state with
          table := updateLastUsed id now state.table, touches := state.touches.erase id }
      else none
  | .revoke id =>
      match state.table.get? id with
      -- `not_found("API key not found")`
      | none => some state
      | some _ => some { state with revokes := id :: state.revokes }
  | .revokeUpdate id now =>
      if id ∈ state.revokes then
        some { state with
          table := updateRevokedAt id now state.table, revokes := state.revokes.erase id,
          log := .revoked id :: state.log }
      else none
  | .refresh id expiresAt =>
      match checkExpiresAt parseRfc3339 expiresAt, state.table.get? id with
      | .ok (), some _ => some { state with refreshes := (id, expiresAt) :: state.refreshes }
      | _, _ => some state
  | .refreshUpdate id expiresAt =>
      if (id, expiresAt) ∈ state.refreshes then
        some { state with
          table := updateExpiresAt id expiresAt state.table,
          refreshes := state.refreshes.erase (id, expiresAt),
          log := .refreshed id expiresAt :: state.log }
      else none
  | .list _ => some state

/-! ## What the statements do to the record under an id -/

theorem get?_updateLastUsed (id : List Char) (timestamp : String) (table : KeyTable)
    (k : List Char) :
    (updateLastUsed id timestamp table).get? k =
      if k = id then (table.get? k).map fun record => { record with lastUsedAt := some timestamp }
      else table.get? k := by
  unfold updateLastUsed
  rw [Table.get?_modify, Table.map_setWhere_key]

theorem get?_updateExpiresAt (id : List Char) (expiresAt : Option String) (table : KeyTable)
    (k : List Char) :
    (updateExpiresAt id expiresAt table).get? k =
      if k = id then (table.get? k).map fun record => { record with expiresAt := expiresAt }
      else table.get? k := by
  unfold updateExpiresAt
  rw [Table.get?_modify, Table.map_setWhere_key]

theorem get?_updateRevokedAt (id : List Char) (revokedAt : String) (table : KeyTable)
    (k : List Char) :
    (updateRevokedAt id revokedAt table).get? k =
      if k = id then (table.get? k).map fun record => { record with revokedAt := some revokedAt }
      else table.get? k := by
  unfold updateRevokedAt
  rw [Table.get?_modify, Table.map_setWhere_key]

end Modo.ApiKey
