import Modo.Session.Resurrection

/-!
# The JWT session service

`JwtSessionService` hands out pairs of signed tokens whose `jti` is the hex text
of a session token.  A presented token arrives as the outcome of taking it apart
and verifying its signature: claims that somebody with the key has signed, or
the error.  What follows is the service's own: `validate` checks the claims,
`presentedToken` the audience and the `jti`, and `mintPair` makes the next pair.

A call of the service makes a few store calls and reads the clock between them.
`rotate` is the composition of `rotateRead` and `rotateWrite`, which are separate
because other calls may run between the two.
-/

namespace Modo.Sessions.Jwt

/-- The fields of `JwtSessionsConfig` the service reads. -/
structure JwtSessionsConfig where
  issuer : Option String := none
  accessTtlSecs : ℕ := 900
  refreshTtlSecs : ℕ := 2592000
  maxPerUser : ℕ := 20
  touchIntervalSecs : ℕ := 300

/-- The configuration `JwtSessionService::new` gives its store. -/
def JwtSessionsConfig.storeConfig (config : JwtSessionsConfig) : CookieSessionsConfig where
  sessionTtlSecs := config.refreshTtlSecs
  touchIntervalSecs := config.touchIntervalSecs
  maxSessionsPerUser := max config.maxPerUser 1
  validateFingerprint := false

/-- `JwtError`, as decoding returns it. -/
inductive JwtError where
  | invalidHeader
  | malformedToken
  | deserializationFailed
  | invalidSignature
  | expired
  | notYetValid
  | invalidIssuer
  | invalidAudience
  | algorithmMismatch
  deriving DecidableEq

/-- How a call of the service fails. -/
inductive AuthError where
  | jwt (error : JwtError)
  /-- `auth:aud_mismatch`. -/
  | audMismatch
  /-- `auth:session_not_found`, unauthorized. -/
  | sessionNotFound
  /-- `auth:session_not_found`, not found. -/
  | notFound
  /-- A store call failed. -/
  | store
  deriving DecidableEq

/-- `Claims`. -/
structure Claims where
  iss : Option String := none
  sub : Option String := none
  aud : Option String := none
  exp : Option ℕ := none
  nbf : Option ℕ := none
  iat : Option ℕ := none
  jti : Option (List Char) := none
  deriving DecidableEq

/-- `now_secs`. -/
def unixSecs (now : DateTime) : ℕ := now.secs.toNat

/-- The sum of two numbers of seconds, as `u64`. -/
def addSecs (a b : ℕ) : ℕ := (a + b) % 2 ^ 64

theorem addSecs_lt (a b : ℕ) : addSecs a b < 2 ^ 64 := Nat.mod_lt _ (Nat.two_pow_pos 64)

/-- The checks of `JwtDecoder::decode` on the payload, with the validation the
service configures: no leeway, and no audience. -/
def validate (config : JwtSessionsConfig) (now : ℕ) (claims : Claims) : Except AuthError Claims :=
  match claims.exp with
  | none => .error (.jwt .expired)
  | some exp =>
      if exp < now then .error (.jwt .expired)
      else if claims.nbf.any fun nbf => decide (now < nbf) then .error (.jwt .notYetValid)
      else if config.issuer ≠ none ∧ claims.iss ≠ config.issuer then
        .error (.jwt .invalidIssuer)
      else .ok claims

/-- The session token of a presented token: `decode`, then the checks `rotate`
and `logout` share. -/
def presentedToken (config : JwtSessionsConfig) (audience : String) (now : ℕ)
    (parsed : Except JwtError Claims) : Except AuthError SessionToken :=
  match parsed with
  | .error error => .error (.jwt error)
  | .ok claims =>
      match validate config now claims with
      | .error error => .error error
      | .ok claims =>
          if claims.aud ≠ some audience then .error .audMismatch
          else
            match claims.jti.bind SessionToken.fromHex with
            | none => .error .sessionNotFound
            | some token => .ok token

/-- `TokenPair`, with the claims the two tokens carry. -/
structure TokenPair where
  accessToken : Claims
  refreshToken : Claims
  accessExpiresAt : ℕ
  refreshExpiresAt : ℕ
  deriving DecidableEq

/-- The clock readings of `mint_pair`: one for the expiries, and one for each
`iat`. -/
structure MintCall where
  now : DateTime
  accessIat : DateTime
  refreshIat : DateTime

/-- All readings of `mint_pair` at one instant. -/
def mintAt (secs : ℤ) : MintCall := ⟨.ofSecs secs, .ofSecs secs, .ofSecs secs⟩

/-- `mint_pair`, without overflow checks.  With them a sum outside `u64` panics, and
there is no pair. -/
def mintPair (config : JwtSessionsConfig) (userId : String) (token : SessionToken)
    (mint : MintCall) : TokenPair :=
  let claims (audience : String) (exp iat : ℕ) : Claims :=
    { iss := config.issuer, sub := some userId, aud := some audience, exp := some exp,
      iat := some iat, jti := some token.asHex }
  let accessExp := addSecs (unixSecs mint.now) config.accessTtlSecs
  let refreshExp := addSecs (unixSecs mint.now) config.refreshTtlSecs
  { accessToken := claims "access" accessExp (unixSecs mint.accessIat)
    refreshToken := claims "refresh" refreshExp (unixSecs mint.refreshIat)
    accessExpiresAt := accessExp
    refreshExpiresAt := refreshExp }

/-- A refresh token is accepted as its session token until its `exp` has passed. -/
theorem presentedToken_mintPair (config : JwtSessionsConfig) (userId : String)
    (token : SessionToken) (mint : MintCall) {now : ℕ}
    (hnow : now ≤ addSecs (unixSecs mint.now) config.refreshTtlSecs) :
    presentedToken config "refresh" now (.ok (mintPair config userId token mint).refreshToken) =
      .ok token := by
  have hexp : ¬ addSecs (unixSecs mint.now) config.refreshTtlSecs < now := by omega
  simp [presentedToken, validate, mintPair, hexp, SessionToken.fromHex_asHex]

/-! ## The calls -/

section Calls

variable (sha256 : List UInt8 → String) (config : JwtSessionsConfig)

/-- `authenticate`. -/
def authenticate (info : ClientInfo) (userId : String) (call : CreateCall) (mint : MintCall)
    (table : SessionTable) : Option (SessionTable × Except AuthError TokenPair) :=
  match create sha256 config.storeConfig info userId none call table with
  | none => none
  | some (table, none) => some (table, .error .store)
  | some (table, some (session, token)) =>
      some (table, .ok (mintPair config session.userId token mint))

/-- The clock readings of a call that decodes a token and reads its session, and
the outcome of the read. -/
structure ReadCall where
  decodeNow : DateTime
  readNow : DateTime
  readOk : Bool

/-- Decode, and read the session: what `rotate` and `logout` begin with. -/
def readPresented (audience : String) (parsed : Except JwtError Claims) (call : ReadCall)
    (table : SessionTable) : Except AuthError (SessionToken × Option SessionData) :=
  match presentedToken config audience (unixSecs call.decodeNow) parsed with
  | .error error => .error error
  | .ok token =>
      if call.readOk then .ok (token, readByTokenHash (token.hash sha256) call.readNow table)
      else .error .store

/-- The first half of `rotate`. -/
def rotateRead (parsed : Except JwtError Claims) (call : ReadCall) (table : SessionTable) :
    Except AuthError (SessionToken × SessionData) :=
  match readPresented sha256 config "refresh" parsed call table with
  | .error error => .error error
  | .ok (_, none) => .error .sessionNotFound
  | .ok (token, some session) => .ok (token, session)

/-- What the second half of `rotate` draws and reads from the clock, and the
outcome of its update. -/
structure WriteCall where
  token : SessionToken
  now : DateTime
  writeOk : Bool
  mint : MintCall

/-- The second half of `rotate`. -/
def rotateWrite (session : SessionData) (call : WriteCall) (table : SessionTable) :
    Option (SessionTable × TokenPair) :=
  if call.writeOk then
    (rotateToken session.id (call.token.hash sha256) call.now table).map fun table =>
      (table, mintPair config session.userId call.token call.mint)
  else none

/-- `rotate`. -/
def rotate (parsed : Except JwtError Claims) (read : ReadCall) (write : WriteCall)
    (table : SessionTable) : SessionTable × Except AuthError TokenPair :=
  match rotateRead sha256 config parsed read table with
  | .error error => (table, .error error)
  | .ok (_, session) =>
      match rotateWrite sha256 config session write table with
      | none => (table, .error .store)
      | some (table, pair) => (table, .ok pair)

/-- `logout`. -/
def logout (parsed : Except JwtError Claims) (read : ReadCall) (destroyOk : Bool)
    (table : SessionTable) : SessionTable × Except AuthError Unit :=
  match readPresented sha256 config "access" parsed read table with
  | .error error => (table, .error error)
  | .ok (_, none) => (table, .ok ())
  | .ok (_, some session) =>
      if destroyOk then (destroy session.id table, .ok ()) else (table, .error .store)

/-- `revoke`. -/
def revoke (userId id : String) (readOk destroyOk : Bool) (table : SessionTable) :
    SessionTable × Except AuthError Unit :=
  if readOk then
    match read id table with
    | none => (table, .error .notFound)
    | some session =>
        if session.userId ≠ userId then (table, .error .notFound)
        else if destroyOk then (destroy id table, .ok ())
        else (table, .error .store)
  else (table, .error .store)

end Calls

/-! ## What the calls do -/

section Specs

variable {sha256 : List UInt8 → String} {config : JwtSessionsConfig}

/-- Everything `authenticate` can do. -/
theorem authenticate_cases {info : ClientInfo} {userId : String} {call : CreateCall}
    {mint : MintCall} {table table' : SessionTable} {reply : Except AuthError TokenPair}
    (hauth : authenticate sha256 config info userId call mint table = some (table', reply)) :
    (table' = table ∧ reply = .error .store) ∨
    ∃ inserted, table.insert ⟨call.token.hash sha256,
          newSession config.refreshTtlSecs info userId none call.id call.now⟩ = some inserted ∧
      (table' = inserted ∧ reply = .error .store ∨
        trim userId call.now (max config.maxPerUser 1) call.victims inserted = some table' ∧
        reply = .ok (mintPair config userId call.token mint)) := by
  unfold authenticate at hauth
  split at hauth
  · cases hauth
  · rename_i after hcreate
    rw [Option.some.injEq, Prod.mk.injEq] at hauth
    obtain ⟨rfl, rfl⟩ := hauth
    rcases create_cases hcreate with ⟨hsame, -⟩ | ⟨inserted, hinsert, ⟨hsame, -⟩ | ⟨-, hsome⟩⟩
    · exact Or.inl ⟨hsame, rfl⟩
    · exact Or.inr ⟨inserted, hinsert, Or.inl ⟨hsame, rfl⟩⟩
    · cases hsome
  · rename_i after session token hcreate
    rw [Option.some.injEq, Prod.mk.injEq] at hauth
    obtain ⟨rfl, rfl⟩ := hauth
    obtain ⟨rfl, rfl, inserted, hinsert, htrim⟩ := create_eq_some hcreate
    exact Or.inr ⟨inserted, hinsert, Or.inr ⟨htrim, rfl⟩⟩

/-- A session that a call has read is in the table under the hash of the token
that was presented. -/
theorem readPresented_eq_ok {audience : String} {parsed : Except JwtError Claims}
    {call : ReadCall} {table : SessionTable} {token : SessionToken} {session : SessionData}
    (hread : readPresented sha256 config audience parsed call table = .ok (token, some session)) :
    ∃ row, table.get? session.id = some row ∧ row.session = session ∧
      row.tokenHash = token.hash sha256 := by
  unfold readPresented at hread
  split at hread
  · cases hread
  · split at hread
    · rw [Except.ok.injEq, Prod.mk.injEq] at hread
      obtain ⟨rfl, hsome⟩ := hread
      obtain ⟨row, hget, hsession, hhash, -⟩ := get?_of_readByTokenHash hsome
      exact ⟨row, hget, hsession, hhash⟩
    · cases hread

theorem rotateRead_eq_ok {parsed : Except JwtError Claims} {call : ReadCall}
    {table : SessionTable} {token : SessionToken} {session : SessionData}
    (hread : rotateRead sha256 config parsed call table = .ok (token, session)) :
    ∃ row, table.get? session.id = some row ∧ row.session = session ∧
      row.tokenHash = token.hash sha256 := by
  unfold rotateRead at hread
  split at hread
  · cases hread
  · cases hread
  · rename_i found row hpresented
    rw [Except.ok.injEq, Prod.mk.injEq] at hread
    obtain ⟨rfl, rfl⟩ := hread
    exact readPresented_eq_ok hpresented

theorem rotateWrite_eq_some {session : SessionData} {call : WriteCall}
    {table table' : SessionTable} {pair : TokenPair}
    (hwrite : rotateWrite sha256 config session call table = some (table', pair)) :
    call.writeOk = true ∧
      rotateToken session.id (call.token.hash sha256) call.now table = some table' ∧
      pair = mintPair config session.userId call.token call.mint := by
  unfold rotateWrite at hwrite
  split at hwrite
  · rename_i hok
    obtain ⟨updated, hrotate, heq⟩ := Option.map_eq_some_iff.mp hwrite
    rw [Prod.mk.injEq] at heq
    obtain ⟨rfl, rfl⟩ := heq
    exact ⟨hok, hrotate, rfl⟩
  · cases hwrite

/-- A `revoke` that succeeds deletes the session. -/
theorem revoke_eq_ok {userId id : String} {readOk destroyOk : Bool} {table table' : SessionTable}
    (hrevoke : revoke userId id readOk destroyOk table = (table', .ok ())) :
    table' = destroy id table := by
  unfold revoke at hrevoke
  split at hrevoke
  · split at hrevoke
    · cases hrevoke
    · split at hrevoke
      · cases hrevoke
      · split at hrevoke
        · rw [Prod.mk.injEq] at hrevoke
          exact hrevoke.1.symm
        · cases hrevoke
  · cases hrevoke

end Specs

end Modo.Sessions.Jwt
