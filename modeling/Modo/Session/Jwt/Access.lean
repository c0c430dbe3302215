import Modo.Session.Jwt.Codec
import Modo.Session.Jwt.Source

/-!
# What an access token is worth

`JwtMiddleware` stands in front of the handlers.  It decodes the token of a request, and with a
service it asks for the audience of access tokens and, where validation is stateful, for a session
whose token is the `jti`.

A run interleaves the statements of any calls, and hands out pairs for sessions that a call holds
and tokens that a statement has stored.  Whoever sends a request may send any text; all that is
asked of the signatures is that nobody else makes one (`Unforged`).

`access_run` says who gets in.  Without a service it is whoever shows a token of a pair before its
expiry.  With one it is whoever shows an access token, and with stateful validation only while the
row of its session still has the token it was minted for, so that one generation of access tokens
is good for a session, and one that has been rotated, logged out or revoked stays bad.
-/

namespace Modo.Sessions.Jwt.Access

open Http (Parts)

/-! ## The middleware -/

/-- How the middleware refuses a request. -/
inductive Refusal where
  | missingToken
  | auth (error : AuthError)
  deriving DecidableEq

/-- `JwtMiddleware`. -/
structure JwtMiddleware where
  decoder : JwtDecoder
  layer : JwtLayer
  /-- `stateful_validation` of the service, if there is a service. -/
  service : Option Bool

/-- `JwtLayer::new`. -/
def JwtMiddleware.new (decoder : JwtDecoder) : JwtMiddleware where
  decoder := decoder
  layer := { sources := [bearerSource] }
  service := none

/-- `JwtLayer::from_service`. -/
def JwtMiddleware.fromService (signer : TokenSigner) (config : JwtSessionsConfig)
    (sources : JwtSourcesConfig) (statefulValidation : Bool) : JwtMiddleware where
  decoder := .ofEncoder (.fromConfig signer config)
  layer := .fromService sources
  service := some statefulValidation

/-- The lookup of the session of a `jti`. -/
def readSession (sha256 : List UInt8 → String) (table : SessionTable) (read : ReadCall)
    (claims : Claims) : Except Refusal SessionData :=
  match claims.jti.bind SessionToken.fromHex with
  | none => .error (.auth .sessionNotFound)
  | some token =>
      if read.readOk then
        match readByTokenHash (token.hash sha256) read.readNow table with
        | none => .error (.auth .sessionNotFound)
        | some session => .ok session
      else .error (.auth .store)

/-- What a service asks of the claims, and the session it finds. -/
def checkService (sha256 : List UInt8 → String) (service : Option Bool) (table : SessionTable)
    (read : ReadCall) (claims : Claims) : Except Refusal (Option SessionData) :=
  match service with
  | none => .ok none
  | some statefulValidation =>
      if claims.aud ≠ some "access" then .error (.auth .audMismatch)
      else if statefulValidation then (readSession sha256 table read claims).map some
      else .ok none

/-- `JwtMiddleware::call`, up to the handler: the claims and the session that are put into the
extensions of the request. -/
def JwtMiddleware.call (serde : Serde) (sha256 : List UInt8 → String) (gate : JwtMiddleware)
    (table : SessionTable) (parts : Parts) (read : ReadCall) :
    Except Refusal (Claims × Option SessionData) :=
  match gate.layer.token parts with
  | none => .error .missingToken
  | some text =>
      match gate.decoder.decode serde (unixSecs read.decodeNow) text with
      | .error error => .error (.auth (.jwt error))
      | .ok claims =>
          (checkService sha256 gate.service table read claims).map fun session => (claims, session)

/-! ## Runs -/

/-- A pair that was handed out, and the texts of its tokens. -/
structure SignedPair where
  session : SessionData
  token : SessionToken
  claims : TokenPair
  access : List Char
  refresh : List Char

/-- The store, the sessions that calls hold, the tokens that were stored for a session, and the
pairs that were handed out. -/
structure World where
  store : StoreState
  held : List SessionData
  stored : List (String × SessionToken)
  pairs : List SignedPair

/-- The empty store. -/
def World.new : World := ⟨.initial, [], [], []⟩

inductive Action where
  /-- A statement of any call. -/
  | statement (statement : Statement)
  /-- `mint_pair`, at the end of `authenticate` and of `rotate`. -/
  | mint (session : SessionData) (token : SessionToken) (mint : MintCall)

/-- The session a statement leaves with its call: `create` returns the one it inserts, and `rotate`
goes on with the one it reads. -/
def heldAfter (table : SessionTable) : Statement → List SessionData
  | .insert ttlSecs info userId data id _ now => [newSession ttlSecs info userId data id now]
  | .readByTokenHash hash now => (readByTokenHash hash now table).toList
  | _ => []

/-- The token a statement stores for a session. -/
def storedBy : Statement → List (String × SessionToken)
  | .insert _ _ _ _ id token _ => [(id, token)]
  | .rotateToken id token _ => [(id, token)]
  | _ => []

section Runs

variable (serde : Serde) (sha256 : List UInt8 → String) (signer : TokenSigner)
  (config : JwtSessionsConfig)

/-- The texts `mint_pair` gets from the encoder of the service. -/
def signPair (mint : MintCall) (pair : TokenPair) : Except EncodeError (List Char × List Char) := do
  let encoder := JwtEncoder.fromConfig signer config
  let access ← encoder.encode serde (unixSecs mint.now) pair.accessToken
  let refresh ← encoder.encode serde (unixSecs mint.now) pair.refreshToken
  .ok (access, refresh)

/-- The expiries are numbers of 64 bits. -/
def Fits (mint : MintCall) : Prop :=
  unixSecs mint.now + config.accessTtlSecs < 2 ^ 64 ∧
    unixSecs mint.now + config.refreshTtlSecs < 2 ^ 64

instance (mint : MintCall) : Decidable (Fits config mint) :=
  inferInstanceAs (Decidable (_ ∧ _))

def step (world : World) : Action → Option World
  | .statement statement =>
      (execute sha256 world.store statement).map fun store =>
        { world with
          store := store
          held := world.held ++ heldAfter world.store.table statement
          stored := world.stored ++ storedBy statement }
  | .mint session token mint =>
      if session ∈ world.held ∧ (session.id, token) ∈ world.stored ∧ Fits config mint then
        let claims := mintPair config session.userId token mint
        match signPair serde signer config mint claims with
        | .error _ => some world
        | .ok (access, refresh) =>
            some { world with pairs := world.pairs ++ [⟨session, token, claims, access, refresh⟩] }
      else none

end Runs

/-! ## Texts and signatures -/

/-- A text has the header and the payload of one that was signed, and a signature that is
accepted. -/
def Carries (decoder : JwtDecoder) (text signed : List Char) : Prop :=
  ∃ headerB64 payloadB64 signatureB64 other,
    JwtDecoder.parts text = .ok (headerB64, payloadB64, signatureB64) ∧
      decoder.checkSignature headerB64 payloadB64 signatureB64 = .ok () ∧
      JwtDecoder.parts signed = .ok (headerB64, payloadB64, other)

/-- What a text with a good signature says, the service has signed. -/
def Unforged (decoder : JwtDecoder) (pairs : List SignedPair) (text : List Char) : Prop :=
  ∀ headerB64 payloadB64 signatureB64,
    JwtDecoder.parts text = .ok (headerB64, payloadB64, signatureB64) →
    decoder.checkSignature headerB64 payloadB64 signatureB64 = .ok () →
    ∃ pair ∈ pairs, ∃ signed, (signed = pair.access ∨ signed = pair.refresh) ∧
      ∃ other, JwtDecoder.parts signed = .ok (headerB64, payloadB64, other)

/-- The session still has the token the pair was minted for. -/
def Current (sha256 : List UInt8 → String) (table : SessionTable) (pair : SignedPair) : Prop :=
  resolve sha256 table pair.token = some pair.session.id

/-- A text with the claims of an access token that has not expired. -/
def ShowsAccess (decoder : JwtDecoder) (read : ReadCall) (text : List Char) (pair : SignedPair)
    (claims : Claims) : Prop :=
  Carries decoder text pair.access ∧ claims = pair.claims.accessToken ∧
    unixSecs read.decodeNow ≤ pair.claims.accessExpiresAt

/-- A text with the claims of a refresh token that has not expired. -/
def ShowsRefresh (decoder : JwtDecoder) (read : ReadCall) (text : List Char) (pair : SignedPair)
    (claims : Claims) : Prop :=
  Carries decoder text pair.refresh ∧ claims = pair.claims.refreshToken ∧
    unixSecs read.decodeNow ≤ pair.claims.refreshExpiresAt

/-- What a request is let in with, by the text of a pair. -/
def Admits (sha256 : List UInt8 → String) (gate : JwtMiddleware) (table : SessionTable)
    (read : ReadCall) (text : List Char) (pair : SignedPair) (claims : Claims)
    (session : Option SessionData) : Prop :=
  match gate.service with
  | none =>
      session = none ∧ (ShowsAccess gate.decoder read text pair claims ∨
        ShowsRefresh gate.decoder read text pair claims)
  | some false => ShowsAccess gate.decoder read text pair claims ∧ session = none
  | some true =>
      ShowsAccess gate.decoder read text pair claims ∧ read.readOk = true ∧
        Current sha256 table pair ∧ ∃ row, table.get? pair.session.id = some row ∧
          read.readNow.textLT row.session.expiresAt ∧ session = some row.session

/-! ## Decoding what was signed -/

section Decoding

variable {serde : Serde} {signer : TokenSigner} {config : JwtSessionsConfig}

theorem parts_encode (header payload signature : List UInt8) :
    JwtDecoder.parts (Base64url.encode header ++
        '.' :: (Base64url.encode payload ++ '.' :: Base64url.encode signature)) =
      .ok (Base64url.encode header, Base64url.encode payload, Base64url.encode signature) :=
  parts_eq_ok.mpr ⟨rfl, dot_notMem_encode header, dot_notMem_encode payload,
    dot_notMem_encode signature⟩

/-- Claims as the service mints them. -/
structure Minted (config : JwtSessionsConfig) (claims : Claims) (exp : ℕ) : Prop where
  expires : claims.exp = some exp
  fits : exp < 2 ^ 64
  nbf : claims.nbf = none
  iss : claims.iss = config.issuer

/-- A text that carries signed claims is decoded as these claims until they expire. -/
theorem decode_of_carries
    (hheader : serde.fromSlice (Utf8.asBytes (headerText signer.algorithmName)) =
      some (headerValue signer.algorithmName))
    {claims : Claims} {exp minted : ℕ} (hclaims : Minted config claims exp)
    (hreads : ReadsBack serde (.fromConfig signer config) minted claims)
    (hminted : minted + config.accessTtlSecs < 2 ^ 64) {signed text : List Char}
    (hencode : (JwtEncoder.fromConfig signer config).encode serde minted claims = .ok signed)
    (hcarries : Carries (.ofEncoder (.fromConfig signer config)) text signed) {now : ℕ}
    {value : Claims} :
    (JwtDecoder.ofEncoder (.fromConfig signer config)).decode serde now text = .ok value ↔
      value = claims ∧ now ≤ exp := by
  obtain ⟨headerB64, payloadB64, signatureB64, other, hparts, hsignature, hsigned⟩ := hcarries
  obtain ⟨payloadText, signature, htext, -, rfl⟩ := encode_eq_ok hencode
  -- the parts of the signed text are those the encoder has joined
  obtain ⟨rfl, hrest⟩ := Prod.mk.inj (Except.ok.inj (hsigned.symm.trans (parts_encode _ _ _)))
  obtain ⟨rfl, -⟩ := Prod.mk.inj hrest
  let encoder := JwtEncoder.fromConfig signer config
  have hfilled : encoder.filled minted claims = claims := by
    rw [JwtEncoder.filled, hclaims.expires, Option.some_or, ← hclaims.expires]
  have hsum : ∀ defaultExp, encoder.defaultExpiry = some defaultExp →
      minted + defaultExp < 2 ^ 64 := by
    intro defaultExp hdefault
    obtain rfl := Option.some.inj hdefault
    exact hminted
  have hpayload : Represents (encoder.payload minted claims) claims := by
    have hrepresents := represents_payload encoder minted claims hsum
    rwa [hfilled] at hrepresents
  have hread : JwtDecoder.readPayload serde (Base64url.encode payloadText) =
      .ok (encoder.payload minted claims) :=
    readPayload_eq_ok.mpr ⟨payloadText, Base64url.decode_encode _, hreads payloadText htext⟩
  have hheaderOk : (JwtDecoder.ofEncoder encoder).checkHeader serde
      (Base64url.encode (Utf8.asBytes (headerText signer.algorithmName))) = .ok () :=
    checkHeader_eq_ok.mpr ⟨_, _, Base64url.decode_encode _, hheader, alg_headerValue _⟩
  have hgetExp : ((encoder.payload minted claims).get "exp").bind Json.asU64 = some exp := by
    rw [show (encoder.payload minted claims).get "exp" = claims.exp.map Claims.u64 from
      hpayload "exp", bind_asU64_map, hclaims.expires]
  have hgetNbf : ((encoder.payload minted claims).get "nbf").bind Json.asU64 = none := by
    rw [show (encoder.payload minted claims).get "nbf" = claims.nbf.map Claims.u64 from
      hpayload "nbf", bind_asU64_map, hclaims.nbf]
  have hgetIss : ((encoder.payload minted claims).get "iss").bind Json.asStr = config.issuer := by
    rw [show (encoder.payload minted claims).get "iss" = claims.iss.map Json.string from
      hpayload "iss", bind_asStr_map, hclaims.iss]
  have hcheck : JwtDecoder.checkClaims encoder.validation now (encoder.payload minted claims) =
      .ok () ↔ now ≤ exp := by
    have hadd : addSecs exp encoder.validation.leeway = exp := Nat.mod_eq_of_lt hclaims.fits
    rw [checkClaims_eq_ok, hgetExp, hgetNbf, hgetIss]
    constructor
    · rintro ⟨⟨read, hsome, hle⟩, -⟩
      obtain rfl := Option.some.inj hsome
      exact hadd ▸ hle
    · intro hle
      refine ⟨⟨exp, rfl, hadd.symm ▸ hle⟩, ?_, fun required hrequired => hrequired, ?_⟩
      · intro nbf hnbf
        cases hnbf
      · intro required hrequired
        cases hrequired
  rw [decode_eq_ok]
  constructor
  · rintro ⟨first, second, third, payload, hsplit, -, -, hpayload', hclaims', hvalue⟩
    obtain ⟨rfl, hrest⟩ := Prod.mk.inj (Except.ok.inj (hsplit.symm.trans hparts))
    obtain ⟨rfl, rfl⟩ := Prod.mk.inj hrest
    obtain rfl := Except.ok.inj (hpayload'.symm.trans hread)
    refine ⟨?_, hcheck.mp hclaims'⟩
    exact Option.some.inj (hvalue.symm.trans (fromValue_of_represents hpayload))
  · rintro ⟨rfl, hle⟩
    exact ⟨_, _, signatureB64, _, hparts, hheaderOk, hsignature, hread, hcheck.mpr hle,
      fromValue_of_represents hpayload⟩

theorem signPair_eq_ok {mint : MintCall} {pair : TokenPair} {texts : List Char × List Char}
    (hsign : signPair serde signer config mint pair = .ok texts) :
    (JwtEncoder.fromConfig signer config).encode serde (unixSecs mint.now) pair.accessToken =
        .ok texts.1 ∧
      (JwtEncoder.fromConfig signer config).encode serde (unixSecs mint.now) pair.refreshToken =
        .ok texts.2 := by
  simp only [signPair] at hsign
  cases haccess : (JwtEncoder.fromConfig signer config).encode serde (unixSecs mint.now)
      pair.accessToken with
  | error error =>
      rw [haccess] at hsign
      cases hsign
  | ok access =>
      rw [haccess] at hsign
      cases hrefresh : (JwtEncoder.fromConfig signer config).encode serde (unixSecs mint.now)
          pair.refreshToken with
      | error error =>
          rw [hrefresh] at hsign
          cases hsign
      | ok refresh =>
          rw [hrefresh] at hsign
          cases hsign
          exact ⟨rfl, rfl⟩

/-- A signed text carries itself. -/
theorem carries_self
    (hverify : ∀ message signature, signer.sign message = some signature →
      signer.verify message signature = true)
    {minted : ℕ} {claims : Claims} {signed : List Char}
    (hencode : (JwtEncoder.fromConfig signer config).encode serde minted claims = .ok signed) :
    Carries (.ofEncoder (.fromConfig signer config)) signed signed := by
  obtain ⟨payloadText, signature, -, hsignature, rfl⟩ := encode_eq_ok hencode
  exact ⟨_, _, _, _, parts_encode _ _ _,
    checkSignature_eq_ok.mpr ⟨signature, Base64url.decode_encode _, hverify _ _ hsignature⟩,
    parts_encode _ _ _⟩

end Decoding

/-! ## The invariant -/

section Invariant

variable {serde : Serde} {sha256 : List UInt8 → String} {signer : TokenSigner}
  {config : JwtSessionsConfig}

theorem storedBy_fresh {state next : StoreState} {statement : Statement}
    (hstep : execute sha256 state statement = some next) {id : String} {token : SessionToken}
    (hmem : (id, token) ∈ storedBy statement) :
    token ∉ state.tokens ∧ token ∈ next.tokens ∧
      ∀ other, (other, token) ∈ storedBy statement → other = id := by
  cases statement with
  | insert ttlSecs info userId data key fresh now =>
      obtain ⟨rfl, rfl⟩ := Prod.mk.inj (List.mem_singleton.mp hmem)
      simp only [execute, Option.ite_none_left_eq_some, Option.some.injEq, not_or] at hstep
      obtain ⟨⟨-, hfresh⟩, rfl⟩ := hstep
      exact ⟨hfresh, List.mem_cons_self,
        fun other hother => (Prod.mk.inj (List.mem_singleton.mp hother)).1⟩
  | rotateToken key fresh now =>
      obtain ⟨rfl, rfl⟩ := Prod.mk.inj (List.mem_singleton.mp hmem)
      simp only [execute, Option.ite_none_left_eq_some, Option.some.injEq] at hstep
      obtain ⟨hfresh, rfl⟩ := hstep
      exact ⟨hfresh, List.mem_cons_self,
        fun other hother => (Prod.mk.inj (List.mem_singleton.mp hother)).1⟩
  | _ => cases hmem

/-- A token that resolves after a statement did so before, or the statement has stored it. -/
theorem execute_resolve (hinj : Function.Injective (SessionToken.hash sha256))
    {state next : StoreState} {statement : Statement}
    (hstep : execute sha256 state statement = some next) {token : SessionToken} {id : String}
    (hresolve : resolve sha256 next.table token = some id) :
    resolve sha256 state.table token = some id ∨ (id, token) ∈ storedBy statement := by
  obtain ⟨row, hget, hhash⟩ := resolve_eq_some.mp hresolve
  rcases execute_origin hstep hget with ⟨old, hold, -⟩ |
    ⟨ttlSecs, info, userId, data, fresh, now, rfl, -, -, rfl⟩
  · have hrow := execute_rowStep hstep id
    rw [hget, hold] at hrow
    cases hrow with
    | same => exact .inl (resolve_eq_some.mpr ⟨row, hold, hhash⟩)
    | rotate _ fresh now hrotate =>
        obtain rfl : fresh = token := hinj hhash
        subst hrotate
        exact .inr List.mem_cons_self
    | update _ _ hsame => exact .inl (resolve_eq_some.mpr ⟨old, hold, hsame.symm.trans hhash⟩)
  · obtain rfl : fresh = token := hinj hhash
    exact .inr List.mem_cons_self

/-- Sessions that are held are sessions of their users, tokens belong to the session they were
stored for, and pairs are minted and signed for both. -/
structure Sound (serde : Serde) (sha256 : List UInt8 → String) (signer : TokenSigner)
    (config : JwtSessionsConfig) (world : World) : Prop where
  issued : Issued sha256 world.store
  held : ∀ session ∈ world.held, session.id ∈ world.store.ids ∧
    ∀ row, world.store.table.get? session.id = some row → row.session.userId = session.userId
  stored : ∀ id token, (id, token) ∈ world.stored → token ∈ world.store.tokens ∧
    ∀ other, resolve sha256 world.store.table token = some other → other = id
  pairs : ∀ pair ∈ world.pairs, pair.session ∈ world.held ∧
    (pair.session.id, pair.token) ∈ world.stored ∧
    ∃ mint, Fits config mint ∧ pair.claims = mintPair config pair.session.userId pair.token mint ∧
      signPair serde signer config mint pair.claims = .ok (pair.access, pair.refresh)

theorem sound_new : Sound serde sha256 signer config .new where
  issued := issued_initial
  held := fun _ hsession => nomatch hsession
  stored := fun _ _ hstored => nomatch hstored
  pairs := fun _ hpair => nomatch hpair

theorem held_statement {world : World} (hsound : Sound serde sha256 signer config world)
    {statement : Statement} {store : StoreState}
    (hstep : execute sha256 world.store statement = some store) {session : SessionData}
    (hsession : session ∈ world.held ++ heldAfter world.store.table statement) :
    session.id ∈ store.ids ∧
      ∀ row, store.table.get? session.id = some row → row.session.userId = session.userId := by
  rcases List.mem_append.mp hsession with hheld | hnew
  · obtain ⟨hid, huser⟩ := hsound.held session hheld
    refine ⟨(execute_issued_mono hstep).1 _ hid, fun row hget => ?_⟩
    rcases execute_origin hstep hget with ⟨old, hold, hsame⟩ | ⟨_, _, _, _, _, _, -, hfresh, -, -⟩
    · exact (congrArg Origin.userId hsame).symm.trans (huser old hold)
    · exact absurd hid hfresh
  · cases statement with
    | insert ttlSecs info userId data id token now =>
        obtain rfl := List.mem_singleton.mp hnew
        have hfresh := hstep
        simp only [execute, Option.ite_none_left_eq_some, Option.some.injEq, not_or] at hfresh
        obtain ⟨⟨hid, -⟩, rfl⟩ := hfresh
        refine ⟨List.mem_cons_self, fun row hget => ?_⟩
        rcases execute_origin hstep hget with ⟨old, hold, -⟩ |
          ⟨_, _, _, _, _, _, hsame, -, -, rfl⟩
        · exact absurd (hsound.issued.ids _ old hold) hid
        · cases hsame
          rfl
    | readByTokenHash hash now =>
        cases hstep
        obtain ⟨row, hget, rfl, -⟩ := get?_of_readByTokenHash (Option.mem_toList.mp hnew)
        refine ⟨hsound.issued.ids _ row hget, fun other hother => ?_⟩
        obtain rfl := Option.some.inj (hget.symm.trans hother)
        rfl
    | _ => cases hnew

theorem stored_statement (hinj : Function.Injective (SessionToken.hash sha256)) {world : World}
    (hsound : Sound serde sha256 signer config world) {statement : Statement} {store : StoreState}
    (hstep : execute sha256 world.store statement = some store) {id : String}
    {token : SessionToken} (hstored : (id, token) ∈ world.stored ++ storedBy statement) :
    token ∈ store.tokens ∧
      ∀ other, resolve sha256 store.table token = some other → other = id := by
  rcases List.mem_append.mp hstored with hold | hnew
  · obtain ⟨htoken, hone⟩ := hsound.stored id token hold
    refine ⟨(execute_issued_mono hstep).2 token htoken, fun other hresolve => ?_⟩
    rcases execute_resolve hinj hstep hresolve with hbefore | hby
    · exact hone other hbefore
    · exact absurd htoken (storedBy_fresh hstep hby).1
  · obtain ⟨hfresh, hissued, hone⟩ := storedBy_fresh hstep hnew
    refine ⟨hissued, fun other hresolve => ?_⟩
    rcases execute_resolve hinj hstep hresolve with hbefore | hby
    · exact absurd (hsound.issued.mem_tokens hinj hbefore) hfresh
    · exact hone other hby

theorem step_sound (hinj : Function.Injective (SessionToken.hash sha256)) {world next : World}
    {action : Action} (hsound : Sound serde sha256 signer config world)
    (hstep : step serde sha256 signer config world action = some next) :
    Sound serde sha256 signer config next := by
  cases action with
  | statement statement =>
      obtain ⟨store, hexecute, rfl⟩ := Option.map_eq_some_iff.mp hstep
      refine ⟨execute_issued hsound.issued hexecute, fun session => held_statement hsound hexecute,
        fun id token => stored_statement hinj hsound hexecute, fun pair hpair => ?_⟩
      obtain ⟨hheld, hstored, hminted⟩ := hsound.pairs pair hpair
      exact ⟨List.mem_append_left _ hheld, List.mem_append_left _ hstored, hminted⟩
  | mint session token mint =>
      simp only [step, Option.ite_none_right_eq_some] at hstep
      obtain ⟨⟨hheld, hstored, hfits⟩, hstep⟩ := hstep
      cases hsign : signPair serde signer config mint
          (mintPair config session.userId token mint) with
      | error error =>
          rw [hsign] at hstep
          obtain rfl := Option.some.inj hstep
          exact hsound
      | ok texts =>
          rw [hsign] at hstep
          obtain rfl := Option.some.inj hstep
          refine ⟨hsound.issued, hsound.held, hsound.stored, fun pair hpair => ?_⟩
          rcases List.mem_append.mp hpair with hpair | hpair
          · exact hsound.pairs pair hpair
          · obtain rfl := List.mem_singleton.mp hpair
            exact ⟨hheld, hstored, mint, hfits, rfl, hsign⟩

theorem run_sound (hinj : Function.Injective (SessionToken.hash sha256)) {actions : List Action}
    {world : World}
    (hrun : Machine.run (step serde sha256 signer config) .new actions = some world) :
    Sound serde sha256 signer config world :=
  Machine.run_invariant (Sound serde sha256 signer config)
    (fun _ _ _ hsound hstep => step_sound hinj hsound hstep) sound_new hrun

end Invariant

/-! ## Who gets in -/

section Admission

variable {serde : Serde} {sha256 : List UInt8 → String} {signer : TokenSigner}
  {config : JwtSessionsConfig}

theorem map_eq_ok {α β : Type} {x : Except Refusal α} {f : α → β} {b : β} :
    x.map f = .ok b ↔ ∃ a, x = .ok a ∧ f a = b := by
  cases x <;> simp [Except.map]

theorem readSession_eq_ok {table : SessionTable} {read : ReadCall} {claims : Claims}
    {session : SessionData} :
    readSession sha256 table read claims = .ok session ↔
      read.readOk = true ∧ ∃ token, claims.jti.bind SessionToken.fromHex = some token ∧
        readByTokenHash (token.hash sha256) read.readNow table = some session := by
  unfold readSession
  cases hjti : claims.jti.bind SessionToken.fromHex with
  | none => simp
  | some token =>
      cases hok : read.readOk with
      | false => simp
      | true =>
          cases hread : readByTokenHash (token.hash sha256) read.readNow table <;> simp [hread]

theorem checkService_eq_ok {service : Option Bool} {table : SessionTable} {read : ReadCall}
    {claims : Claims} {session : Option SessionData} :
    checkService sha256 service table read claims = .ok session ↔
      (service ≠ none → claims.aud = some "access") ∧
        if service = some true then
          ∃ found, readSession sha256 table read claims = .ok found ∧ some found = session
        else session = none := by
  rcases service with _ | statefulValidation
  · simp [checkService, eq_comm]
  by_cases haud : claims.aud = some "access"
  · cases statefulValidation with
    | false => simp [checkService, haud, eq_comm]
    | true => simp [checkService, haud, map_eq_ok]
  · simp [checkService, haud]

theorem call_eq_ok {gate : JwtMiddleware} {table : SessionTable} {parts : Parts} {read : ReadCall}
    {claims : Claims} {session : Option SessionData} :
    gate.call serde sha256 table parts read = .ok (claims, session) ↔
      ∃ text, gate.layer.token parts = some text ∧
        gate.decoder.decode serde (unixSecs read.decodeNow) text = .ok claims ∧
        checkService sha256 gate.service table read claims = .ok session := by
  unfold JwtMiddleware.call
  cases htoken : gate.layer.token parts with
  | none => simp
  | some text =>
      cases hdecode : gate.decoder.decode (T := Claims) serde (unixSecs read.decodeNow) text with
      | error error => simp [hdecode]
      | ok decoded =>
          simp only [hdecode, map_eq_ok, Prod.mk.injEq, Option.some.injEq, exists_eq_left',
            Except.ok.injEq]
          constructor
          · rintro ⟨found, hservice, rfl, rfl⟩
            exact ⟨rfl, hservice⟩
          · rintro ⟨rfl, hservice⟩
            exact ⟨session, hservice, rfl, rfl⟩

/-- A pair and the clock reading it was minted at. -/
theorem Sound.minted {world : World} (hsound : Sound serde sha256 signer config world)
    {pair : SignedPair} (hpair : pair ∈ world.pairs) :
    ∃ minted, minted + config.accessTtlSecs < 2 ^ 64 ∧
      Minted config pair.claims.accessToken pair.claims.accessExpiresAt ∧
      Minted config pair.claims.refreshToken pair.claims.refreshExpiresAt ∧
      (JwtEncoder.fromConfig signer config).encode serde minted pair.claims.accessToken =
        .ok pair.access ∧
      (JwtEncoder.fromConfig signer config).encode serde minted pair.claims.refreshToken =
        .ok pair.refresh := by
  obtain ⟨-, -, mint, hfits, hclaims, hsign⟩ := hsound.pairs pair hpair
  obtain ⟨haccess, hrefresh⟩ := signPair_eq_ok hsign
  refine ⟨unixSecs mint.now, hfits.1, ?_, ?_, haccess, hrefresh⟩
  · rw [hclaims]
    exact ⟨rfl, addSecs_lt _ _, rfl, rfl⟩
  · rw [hclaims]
    exact ⟨rfl, addSecs_lt _ _, rfl, rfl⟩

/-- What the claims of a pair name. -/
theorem Sound.named {world : World} (hsound : Sound serde sha256 signer config world)
    {pair : SignedPair} (hpair : pair ∈ world.pairs) :
    pair.claims.accessToken.sub = some pair.session.userId ∧
      pair.claims.accessToken.aud = some "access" ∧
      pair.claims.refreshToken.aud = some "refresh" ∧
      pair.claims.accessToken.jti.bind SessionToken.fromHex = some pair.token := by
  obtain ⟨-, -, mint, -, hclaims, -⟩ := hsound.pairs pair hpair
  rw [hclaims]
  exact ⟨rfl, rfl, rfl, SessionToken.fromHex_asHex pair.token⟩

/-- The decoder gives the claims of the pairs that were handed out, and no others. -/
theorem Sound.decode_iff
    (hheader : serde.fromSlice (Utf8.asBytes (headerText signer.algorithmName)) =
      some (headerValue signer.algorithmName))
    (hreads : ∀ minted claims, ReadsBack serde (.fromConfig signer config) minted claims)
    {world : World} (hsound : Sound serde sha256 signer config world) {text : List Char}
    (hunforged : Unforged (.ofEncoder (.fromConfig signer config)) world.pairs text)
    {read : ReadCall} {claims : Claims} :
    (JwtDecoder.ofEncoder (.fromConfig signer config)).decode serde (unixSecs read.decodeNow) text =
        .ok claims ↔
      ∃ pair ∈ world.pairs,
        ShowsAccess (.ofEncoder (.fromConfig signer config)) read text pair claims ∨
          ShowsRefresh (.ofEncoder (.fromConfig signer config)) read text pair claims := by
  constructor
  · intro hdecode
    obtain ⟨headerB64, payloadB64, signatureB64, -, hparts, -, hsignature, -⟩ :=
      decode_eq_ok.mp hdecode
    obtain ⟨pair, hpair, signed, hsigned, other, hother⟩ :=
      hunforged headerB64 payloadB64 signatureB64 hparts hsignature
    obtain ⟨minted, hminted, haccess, hrefresh, haccessText, hrefreshText⟩ := hsound.minted hpair
    have hcarries : Carries (.ofEncoder (.fromConfig signer config)) text signed :=
      ⟨headerB64, payloadB64, signatureB64, other, hparts, hsignature, hother⟩
    refine ⟨pair, hpair, ?_⟩
    rcases hsigned with rfl | rfl
    · exact .inl ⟨hcarries, (decode_of_carries hheader haccess (hreads _ _) hminted haccessText
        hcarries).mp hdecode⟩
    · exact .inr ⟨hcarries, (decode_of_carries hheader hrefresh (hreads _ _) hminted hrefreshText
        hcarries).mp hdecode⟩
  · rintro ⟨pair, hpair, ⟨hcarries, hshows⟩ | ⟨hcarries, hshows⟩⟩
    · obtain ⟨minted, hminted, haccess, -, haccessText, -⟩ := hsound.minted hpair
      exact (decode_of_carries hheader haccess (hreads _ _) hminted haccessText hcarries).mpr hshows
    · obtain ⟨minted, hminted, -, hrefresh, -, hrefreshText⟩ := hsound.minted hpair
      exact (decode_of_carries hheader hrefresh (hreads _ _) hminted hrefreshText
        hcarries).mpr hshows

/-- The session of a pair is read by its token while it is current. -/
theorem Sound.readByTokenHash_iff {world : World}
    (hsound : Sound serde sha256 signer config world) {pair : SignedPair}
    (hpair : pair ∈ world.pairs) {now : DateTime} {found : SessionData} :
    readByTokenHash (pair.token.hash sha256) now world.store.table = some found ↔
      Current sha256 world.store.table pair ∧
        ∃ row, world.store.table.get? pair.session.id = some row ∧
          now.textLT row.session.expiresAt ∧ found = row.session := by
  constructor
  · intro hread
    obtain ⟨row, hget, rfl, hhash, hactive⟩ := get?_of_readByTokenHash hread
    have hresolve := resolve_eq_some.mpr ⟨row, hget, hhash⟩
    have hid := (hsound.stored _ _ (hsound.pairs pair hpair).2.1).2 _ hresolve
    rw [hid] at hresolve hget
    exact ⟨hresolve, row, hget, hactive, rfl⟩
  · rintro ⟨hcurrent, row, hget, hactive, rfl⟩
    obtain ⟨other, hother, hhash⟩ := resolve_eq_some.mp hcurrent
    obtain rfl := Option.some.inj (hget.symm.trans hother)
    rw [← hhash]
    exact readByTokenHash_eq_some hget hactive

theorem Sound.call_iff
    (hheader : serde.fromSlice (Utf8.asBytes (headerText signer.algorithmName)) =
      some (headerValue signer.algorithmName))
    (hreads : ∀ minted claims, ReadsBack serde (.fromConfig signer config) minted claims)
    {world : World} (hsound : Sound serde sha256 signer config world) {gate : JwtMiddleware}
    (hgate : gate.decoder = .ofEncoder (.fromConfig signer config)) {parts : Parts}
    (hunforged : ∀ text, gate.layer.token parts = some text →
      Unforged gate.decoder world.pairs text)
    {read : ReadCall} {claims : Claims} {session : Option SessionData} :
    gate.call serde sha256 world.store.table parts read = .ok (claims, session) ↔
      ∃ text, gate.layer.token parts = some text ∧ ∃ pair ∈ world.pairs,
        Admits sha256 gate world.store.table read text pair claims session := by
  rw [call_eq_ok]
  refine exists_congr fun text => and_congr_right fun htoken => ?_
  have hunforged := hunforged text htoken
  rw [hgate] at hunforged
  rw [hgate, hsound.decode_iff hheader hreads hunforged]
  rw [checkService_eq_ok]
  unfold Admits
  rw [hgate]
  rcases gate.service with _ | _ | _
  · constructor
    · rintro ⟨⟨pair, hpair, hshows⟩, -, hsession⟩
      exact ⟨pair, hpair, hsession, hshows⟩
    · rintro ⟨pair, hpair, hsession, hshows⟩
      exact ⟨⟨pair, hpair, hshows⟩, fun hnone => absurd rfl hnone, hsession⟩
  · constructor
    · rintro ⟨⟨pair, hpair, hshows | ⟨-, rfl, -⟩⟩, haud, hsession⟩
      · exact ⟨pair, hpair, hshows, hsession⟩
      · exact absurd ((hsound.named hpair).2.2.1.symm.trans (haud nofun)) (by decide)
    · rintro ⟨pair, hpair, hshows, hsession⟩
      exact ⟨⟨pair, hpair, .inl hshows⟩, fun _ => hshows.2.1 ▸ (hsound.named hpair).2.1, hsession⟩
  · constructor
    · rintro ⟨⟨pair, hpair, hshows | ⟨-, rfl, -⟩⟩, haud, found, hread, rfl⟩
      · obtain ⟨-, rfl, -⟩ := id hshows
        obtain ⟨hok, token, hjti, hread⟩ := readSession_eq_ok.mp hread
        obtain rfl := Option.some.inj ((hsound.named hpair).2.2.2.symm.trans hjti)
        obtain ⟨hcurrent, row, hget, hactive, rfl⟩ := (hsound.readByTokenHash_iff hpair).mp hread
        exact ⟨pair, hpair, hshows, hok, hcurrent, row, hget, hactive, rfl⟩
      · exact absurd ((hsound.named hpair).2.2.1.symm.trans (haud nofun)) (by decide)
    · rintro ⟨pair, hpair, hshows, hok, hcurrent, row, hget, hactive, rfl⟩
      obtain ⟨-, haud, -, hjti⟩ := hsound.named hpair
      have hread := (hsound.readByTokenHash_iff hpair).mpr ⟨hcurrent, row, hget, hactive, rfl⟩
      refine ⟨⟨pair, hpair, .inl hshows⟩, fun _ => hshows.2.1 ▸ haud, row.session, ?_, rfl⟩
      exact readSession_eq_ok.mpr ⟨hok, pair.token, hshows.2.1 ▸ hjti, hread⟩

/-- A pair that is not current will not be. -/
theorem current_of_later (hinj : Function.Injective (SessionToken.hash sha256))
    {world final : World} (hsound : Sound serde sha256 signer config world) {later : List Action}
    (hlater : Machine.run (step serde sha256 signer config) world later = some final)
    {pair : SignedPair} (hpair : pair ∈ world.pairs)
    (hcurrent : Current sha256 final.store.table pair) :
    Current sha256 world.store.table pair := by
  obtain ⟨htoken, hone⟩ := hsound.stored _ _ (hsound.pairs pair hpair).2.1
  by_contra hnot
  have hnone : ∀ id, resolve sha256 world.store.table pair.token ≠ some id := by
    intro id hresolve
    obtain rfl := hone id hresolve
    exact hnot hresolve
  suffices hinv : pair.token ∈ final.store.tokens ∧
      ∀ id, resolve sha256 final.store.table pair.token ≠ some id from hinv.2 _ hcurrent
  refine Machine.run_invariant (fun world => pair.token ∈ world.store.tokens ∧
    ∀ id, resolve sha256 world.store.table pair.token ≠ some id) ?_ ⟨htoken, hnone⟩ hlater
  rintro before action after ⟨hissued, hgone⟩ hstep
  cases action with
  | statement statement =>
      obtain ⟨store, hexecute, rfl⟩ := Option.map_eq_some_iff.mp hstep
      refine ⟨(execute_issued_mono hexecute).2 _ hissued, fun id hresolve => ?_⟩
      rcases execute_resolve hinj hexecute hresolve with hbefore | hby
      · exact hgone id hbefore
      · exact (storedBy_fresh hexecute hby).1 hissued
  | mint session token mint =>
      simp only [step, Option.ite_none_right_eq_some] at hstep
      obtain ⟨-, hstep⟩ := hstep
      split at hstep
      · obtain rfl := Option.some.inj hstep
        exact ⟨hissued, hgone⟩
      · obtain rfl := Option.some.inj hstep
        exact ⟨hissued, hgone⟩

/-- **What an access token is worth**: in every state the service comes to, the middleware lets a
request in exactly by the text of a pair that was handed out and has not expired, behind a service
only by an access token, and with stateful validation only while the session still has the token
the pair was minted for.  The claims name the user of that session, the tokens of one mint at most
are good for a session, and those that are no longer good stay so. -/
theorem access_run (hinj : Function.Injective (SessionToken.hash sha256))
    (hverify : ∀ message signature, signer.sign message = some signature →
      signer.verify message signature = true)
    (hheader : serde.fromSlice (Utf8.asBytes (headerText signer.algorithmName)) =
      some (headerValue signer.algorithmName))
    (hreads : ∀ minted claims, ReadsBack serde (.fromConfig signer config) minted claims)
    {actions : List Action} {world : World}
    (hrun : Machine.run (step serde sha256 signer config) .new actions = some world) :
    (∀ gate : JwtMiddleware, gate.decoder = .ofEncoder (.fromConfig signer config) →
      ∀ parts, (∀ text, gate.layer.token parts = some text →
        Unforged gate.decoder world.pairs text) →
      ∀ read claims session,
        gate.call serde sha256 world.store.table parts read = .ok (claims, session) ↔
          ∃ text, gate.layer.token parts = some text ∧ ∃ pair ∈ world.pairs,
            Admits sha256 gate world.store.table read text pair claims session) ∧
    (∀ pair ∈ world.pairs,
      Carries (.ofEncoder (.fromConfig signer config)) pair.access pair.access ∧
      Carries (.ofEncoder (.fromConfig signer config)) pair.refresh pair.refresh ∧
      ∀ row, world.store.table.get? pair.session.id = some row →
        pair.claims.accessToken.sub = some row.session.userId) ∧
    (∀ first ∈ world.pairs, ∀ second ∈ world.pairs, first.session.id = second.session.id →
      Current sha256 world.store.table first → Current sha256 world.store.table second →
        first.token = second.token) ∧
    ∀ later final, Machine.run (step serde sha256 signer config) world later = some final →
      ∀ pair ∈ world.pairs, Current sha256 final.store.table pair →
        Current sha256 world.store.table pair := by
  have hsound := run_sound hinj hrun
  refine ⟨?_, ?_, ?_, ?_⟩
  · intro gate hgate parts hunforged read claims session
    exact hsound.call_iff hheader hreads hgate hunforged
  · intro pair hpair
    obtain ⟨minted, -, -, -, haccess, hrefresh⟩ := hsound.minted hpair
    refine ⟨carries_self hverify haccess, carries_self hverify hrefresh, fun row hget => ?_⟩
    rw [(hsound.held _ (hsound.pairs pair hpair).1).2 row hget]
    exact (hsound.named hpair).1
  · intro first _ second _ hsame hfirst hsecond
    rw [Current, hsame] at hfirst
    exact resolve_unique hinj hfirst hsecond
  · intro later final hlater pair hpair hcurrent
    exact current_of_later hinj hsound hlater hpair hcurrent

end Admission

/-! ## A token of a session that was rotated -/

/-- The value of the claims of a pair for `sampleToken 0`. -/
def pairPayload (audience : String) (exp : ℕ) : Json :=
  .object [("aud", .string audience), ("exp", .number (.posInt exp)),
    ("iat", .number (.posInt 1767225600)),
    ("jti", .string "0000000000000000000000000000000000000000000000000000000000000000"),
    ("sub", .string "user")]

/-- Its text. -/
def pairText (audience exp : String) : List UInt8 :=
  Utf8.asBytes ("\x7b\"aud\":\"" ++ audience ++ "\",\"exp\":" ++ exp ++
    ",\"iat\":1767225600,\"jti\":\"" ++
    "0000000000000000000000000000000000000000000000000000000000000000\",\"sub\":\"user\"\x7d")

/-- `serde_json` on the header and the two payloads. -/
def pairSerde : Serde where
  toVec value :=
    if value = pairPayload "access" 1767226500 then some (pairText "access" "1767226500")
    else if value = pairPayload "refresh" 1769817600 then some (pairText "refresh" "1769817600")
    else none
  toVecClaims _ := none
  fromSlice bytes :=
    if bytes = Utf8.asBytes (headerText "HS256") then some (headerValue "HS256")
    else if bytes = pairText "access" "1767226500" then some (pairPayload "access" 1767226500)
    else if bytes = pairText "refresh" "1769817600" then some (pairPayload "refresh" 1769817600)
    else none

def accessMessage : List Char :=
  "eyJhbGciOiJIUzI1NiIsInR5cCI6IkpXVCJ9.".toList ++
    ("eyJhdWQiOiJhY2Nlc3MiLCJleHAiOjE3NjcyMjY1MDAsImlhdCI6MTc2NzIyNTYwMCwianRpIjoiMDAwMDAw" ++
    "MDAwMDAwMDAwMDAwMDAwMDAwMDAwMDAwMDAwMDAwMDAwMDAwMDAwMDAwMDAwMDAwMDAwMDAwMDAwMCIsInN1YiI6" ++
    "InVzZXIifQ").toList

/-- HMAC-SHA256 under `test-secret-key-at-least-32-bytes-long!` of the two messages. -/
def pairHmac (message : List UInt8) : List UInt8 :=
  if message = textBytes accessMessage then
    [63, 244, 70, 113, 105, 132, 101, 218, 140, 55, 123, 49, 109, 95, 120, 19, 104, 200, 132, 220,
      17, 91, 214, 105, 108, 138, 37, 47, 221, 220, 167, 251]
  else
    [80, 8, 218, 87, 51, 18, 225, 98, 39, 81, 238, 14, 237, 174, 196, 38, 136, 193, 212, 147, 90,
      49, 191, 93, 215, 191, 232, 76, 174, 185, 162, 5]

def accessToken : List Char :=
  accessMessage ++ ".P_RGcWmEZdqMN3sxbV94E2jIhNwRW9ZpbIolL93cp_s".toList

/-- A login, and the pair it returns. -/
def loginActions : List Action :=
  [.statement (.insert 2592000 ⟨none, none, none, none, none⟩ "user" none "session" (sampleToken 0)
      (.ofSecs 1767225600)),
    .mint (newSession 2592000 ⟨none, none, none, none, none⟩ "user" none "session"
      (.ofSecs 1767225600)) (sampleToken 0) (mintAt 1767225600)]

/-- The token of the session is replaced a minute later. -/
def rotateAction : Action :=
  .statement (.rotateToken "session" (sampleToken 1) (.ofSecs 1767225660))

/-- A request with the access token, and when it is served. -/
def accessRequest : Parts :=
  { headers := [("authorization", Http.ofText ("Bearer ".toList ++ accessToken))], query := none }

def accessRead : ReadCall := ⟨.ofSecs 1767225720, .ofSecs 1767225720, true⟩

def accessGate : JwtMiddleware := .fromService (hmacSigner pairHmac) {} {} true

theorem pairSerde_readsBack (minted : ℕ) (claims : Claims) :
    ReadsBack pairSerde (.fromConfig (hmacSigner pairHmac) {}) minted claims := by
  intro text htext
  have hvec : pairSerde.toVec ((JwtEncoder.fromConfig (hmacSigner pairHmac) {}).payload minted
      claims) = some text := htext
  simp only [pairSerde] at hvec
  split at hvec
  · rename_i hpayload
    rw [hpayload, ← Option.some.inj hvec]
    decide +kernel
  split at hvec
  · rename_i hpayload
    rw [hpayload, ← Option.some.inj hvec]
    decide +kernel
  · cases hvec

/-- The access token lets a request in, and no longer after the rotation. -/
theorem access_run_rotated : ∃ world final,
    Machine.run (step pairSerde sampleSha256 (hmacSigner pairHmac) {}) .new loginActions =
      some world ∧
    Machine.run (step pairSerde sampleSha256 (hmacSigner pairHmac) {}) world [rotateAction] =
      some final ∧
    ((accessGate.call pairSerde sampleSha256 world.store.table accessRequest
      accessRead).map fun admitted => (admitted.1.sub, admitted.2.map SessionData.id)) =
        .ok (some "user", some "session") ∧
    ∀ claims session, accessGate.call pairSerde sampleSha256 final.store.table accessRequest
      accessRead ≠ .ok (claims, session) := by
  have hlogin : (Machine.run (step pairSerde sampleSha256 (hmacSigner pairHmac) {}) .new
      loginActions).any (fun world => decide
        (((accessGate.call pairSerde sampleSha256 world.store.table accessRequest
          accessRead).map fun admitted => (admitted.1.sub, admitted.2.map SessionData.id)) =
            .ok (some "user", some "session"))) = true := by
    decide +kernel
  have hrotate : (Machine.run (step pairSerde sampleSha256 (hmacSigner pairHmac) {}) .new
      (loginActions ++ [rotateAction])).any (fun final => decide
        (final.pairs.map (fun pair => (pair.access, pair.token)) =
            [(accessToken, sampleToken 0)] ∧
          resolve sampleSha256 final.store.table (sampleToken 0) = none)) = true := by
    decide +kernel
  obtain ⟨world, hrun, hadmitted⟩ := Machine.exists_final hlogin
  obtain ⟨final, hfinal, hpairs, hnone⟩ := Machine.exists_final hrotate
  obtain ⟨middle, hmiddle, hlast⟩ := Machine.run_append_eq_some.mp hfinal
  obtain rfl := Option.some.inj (hrun.symm.trans hmiddle)
  obtain ⟨only, honly, hpair⟩ := List.map_eq_singleton_iff.mp hpairs
  obtain ⟨haccess, htoken⟩ := Prod.mk.inj hpair
  have hverify : ∀ message signature, (hmacSigner pairHmac).sign message = some signature →
      (hmacSigner pairHmac).verify message signature = true := by
    intro message signature hsign
    exact decide_eq_true (Option.some.inj hsign).symm
  have hrequest : accessGate.layer.token accessRequest = some accessToken := by decide +kernel
  have hrefused := (access_run sampleHash_injective hverify (by decide +kernel)
    pairSerde_readsBack hfinal).1 accessGate rfl accessRequest
  refine ⟨world, final, hrun, hlast, hadmitted, fun claims session hcall => ?_⟩
  have hunforged : ∀ text, accessGate.layer.token accessRequest = some text →
      Unforged accessGate.decoder final.pairs text := by
    intro text htext headerB64 payloadB64 signatureB64 hparts _
    obtain rfl := Option.some.inj (hrequest.symm.trans htext)
    exact ⟨only, by rw [honly]; exact List.mem_cons_self, _, .inl haccess.symm, _, hparts⟩
  obtain ⟨-, -, pair, hmem, -, -, hcurrent, -⟩ :=
    (hrefused hunforged accessRead claims session).mp hcall
  rw [honly, List.mem_singleton] at hmem
  rw [hmem, Current, htoken, hnone] at hcurrent
  cases hcurrent

end Modo.Sessions.Jwt.Access
