import Modo.ApiKey.Lifecycle
import Modo.Http.Headers
import Modo.Lib.HashMap
import Modo.Lib.Pipeline

/-!
# Guards

A request passes through layers on its way to a handler.  Some resolve who is asking and put what
they found into the extensions of the request; the guards read the extensions and pass the request
on or answer it.  A layer may stand anywhere, and more than once.

`guarded_request` says what a handler may rely on, whatever the layers are: each guard before it
has found what it asks for, and this was put there by the last layer of the kind before the guard.
For an API key it says in terms of the life of the key that the request carries a token of it, and
that the key was not revoked, has not expired and has the scope.  A guard without such a layer in
front of it lets nothing through.
-/

namespace Modo.Auth

open Http (HeaderMap HeaderValue)
open ApiKey (ApiKeyMeta ApiKeyStore KeyTable Issued Revoked Unexpired)

/-! ## Tiers -/

/-- `FeatureAccess`. -/
inductive FeatureAccess where
  | toggle (enabled : Bool)
  | limit (ceiling : ℕ)
  deriving DecidableEq

/-- `TierInfo`. -/
structure TierInfo where
  name : String
  features : HashMap String FeatureAccess

/-- An error as a response: the status, the headers and the message of the body. -/
structure Response where
  status : ℕ
  headers : HeaderMap := []
  message : String := ""
  deriving DecidableEq

namespace TierInfo

/-- `has_feature`. -/
def hasFeature (tier : TierInfo) (name : String) : Bool :=
  match tier.features.lookup name with
  | some (.toggle enabled) => enabled
  | some (.limit ceiling) => decide (0 < ceiling)
  | none => false

def unavailable (name : String) : Response where
  status := 403
  message := s!"Feature '{name}' is not available on your current plan"

def limitExceeded (name : String) (current ceiling : ℕ) : Response where
  status := 403
  message := s!"Limit exceeded for '{name}': {current}/{ceiling}"

/-- `limit_ceiling`. -/
def limitCeiling (tier : TierInfo) (name : String) : Except Response ℕ :=
  match tier.features.lookup name with
  | some (.limit ceiling) => .ok ceiling
  | some (.toggle _) => .error { status := 500, message := s!"Feature '{name}' is not a limit" }
  | none => .error (unavailable name)

end TierInfo

/-! ## Layers -/

/-- What the layers put into the extensions of a request. -/
structure Extensions where
  /-- There is a `Session`. -/
  session : Bool := false
  role : Option String := none
  apiKey : Option ApiKeyMeta := none
  tier : Option TierInfo := none

/-- `Parts`. -/
structure Request where
  headers : HeaderMap
  extensions : Extensions := {}

/-- `HeaderSource`. -/
inductive HeaderSource where
  | authorization
  | custom (name : String)

/-- The layers.  What an application gives them is a parameter; they read the request and leave it
as it is. -/
inductive Layer where
  /-- A session layer: it answers, finds a session or finds none. -/
  | session (load : Request → Except Response Bool)
  | role (extract : Request → Except Response String)
  | apiKey (header : HeaderSource)
  | tier (resolve : String → Except Response TierInfo) (extract : Request → Option String)
      (default : Option TierInfo)
  | requireRole (roles : List String)
  | requireAuthenticated (redirectTo : HeaderValue)
  | requireUnauthenticated (redirectTo : HeaderValue)
  | requireScope (scope : String)
  | requireFeature (name : String)
  | requireLimit (name : String) (usage : Request → Except Response ℕ)

/-- `redirect_response`. -/
def redirectResponse (path : HeaderValue) (headers : HeaderMap) : Response :=
  if headers.getStr "hx-request" = some "true".toList then
    { status := 200, headers := [("hx-redirect", path)] }
  else { status := 303, headers := [("location", path)] }

def unauthorized (message : String) : Response where
  status := 401
  message := message

/-- The header with the token. -/
def HeaderSource.name : HeaderSource → String
  | authorization => "authorization"
  | custom name => name

/-- `extract_token`. -/
def extractToken (headers : HeaderMap) (source : HeaderSource) : Except Response (List Char) :=
  match headers.get source.name with
  | none => .error (unauthorized "missing API key")
  | some value =>
      match Http.toStr value, source with
      | none, _ => .error (unauthorized "invalid API key")
      | some text, .custom _ => .ok text
      | some text, .authorization =>
          match "Bearer ".toList.isPrefixOf? text with
          | some token => .ok token
          | none => .error (unauthorized "invalid API key")

/-- The response to a failure of the store. -/
def failureResponse : ApiKey.Failure → Response
  | .badRequest message => { status := 400, message }
  | .unauthorized message => unauthorized message
  | .notFound message => { status := 404, message }
  | .database | .panic => { status := 500 }

/-- The store of the API keys and its table at the time of the request. -/
structure Env where
  sha256 : List UInt8 → String
  parseRfc3339 : String → Option DateTime
  store : ApiKeyStore
  table : KeyTable
  now : DateTime

/-- The keys are verified. -/
def Env.verify (env : Env) (token : List Char) : Except Response ApiKeyMeta :=
  (ApiKey.verify env.sha256 env.parseRfc3339 env.store.config token env.now env.table).mapError
    failureResponse

def Request.extend (request : Request) (change : Extensions → Extensions) : Request :=
  { request with extensions := change request.extensions }

/-- `call` of a layer: the request that is passed on, or the answer. -/
def call (env : Env) (layer : Layer) (request : Request) : Except Response Request :=
  match layer with
  | .session load =>
      (load request).map fun found =>
        request.extend fun extensions =>
          { extensions with session := extensions.session || found }
  | .role extract =>
      (extract request).map fun role =>
        request.extend fun extensions => { extensions with role := some role }
  | .apiKey header =>
      (extractToken request.headers header).bind fun token => (env.verify token).map fun key =>
        request.extend fun extensions => { extensions with apiKey := some key }
  | .tier resolve extract default =>
      match extract request with
      | some owner =>
          (resolve owner).map fun tier =>
            request.extend fun extensions => { extensions with tier := some tier }
      | none =>
          .ok (request.extend fun extensions =>
            { extensions with tier := default.or extensions.tier })
  | .requireRole roles =>
      match request.extensions.role with
      | none => .error (unauthorized "authentication required")
      | some role =>
          if role ∈ roles then .ok request
          else .error { status := 403, message := "insufficient role" }
  | .requireAuthenticated redirectTo =>
      if request.extensions.session then .ok request
      else .error (redirectResponse redirectTo request.headers)
  | .requireUnauthenticated redirectTo =>
      if request.extensions.session then .error (redirectResponse redirectTo request.headers)
      else .ok request
  | .requireScope scope =>
      match request.extensions.apiKey with
      | none => .error { status := 500, message := "server misconfigured" }
      | some key =>
          if scope ∈ key.scopes then .ok request
          else .error { status := 403, message := s!"missing required scope: {scope}" }
  | .requireFeature name =>
      match request.extensions.tier with
      | none => .error { status := 500, message := "require_feature() called without TierLayer" }
      | some tier =>
          if tier.hasFeature name then .ok request else .error (TierInfo.unavailable name)
  | .requireLimit name usage =>
      match request.extensions.tier with
      | none => .error { status := 500, message := "require_limit() called without TierLayer" }
      | some tier => do
          let ceiling ← tier.limitCeiling name
          if ceiling = 0 then throw (TierInfo.unavailable name)
          let current ← usage request
          if ceiling ≤ current then throw (TierInfo.limitExceeded name current ceiling)
          return request

/-- The layers in front of a handler. -/
def serve (env : Env) : List Layer → Request → Except Response Request := Pipeline.run (call env)

/-! ## What the layers write -/

/-- The layer puts a session there. -/
def WritesSession (layer : Layer) (request : Request) : Prop :=
  ∃ load, layer = .session load ∧ load request = .ok true

def WritesRole (layer : Layer) (_ : Request) : Prop := ∃ extract, layer = .role extract

def WritesApiKey (layer : Layer) (_ : Request) : Prop := ∃ header, layer = .apiKey header

/-- The layer finds an owner, or has a default. -/
def WritesTier (layer : Layer) (request : Request) : Prop :=
  ∃ resolve extract default, layer = .tier resolve extract default ∧
    ((extract request).isSome = true ∨ default.isSome = true)

/-- What a guard asks of a request. -/
def Layer.Allows : Layer → Request → Prop
  | requireRole roles, request => ∃ role ∈ roles, request.extensions.role = some role
  | requireAuthenticated _, request => request.extensions.session = true
  | requireUnauthenticated _, request => request.extensions.session = false
  | requireScope scope, request =>
      ∃ key, request.extensions.apiKey = some key ∧ scope ∈ key.scopes
  | requireFeature name, request =>
      ∃ tier, request.extensions.tier = some tier ∧ tier.hasFeature name = true
  | requireLimit name usage, request =>
      ∃ tier ceiling current, request.extensions.tier = some tier ∧
        tier.features.lookup name = some (.limit ceiling) ∧ usage request = .ok current ∧
          current < ceiling
  | session _, _ | role _, _ | apiKey _, _ | tier _ _ _, _ => True

def Layer.IsGuard : Layer → Prop
  | session _ | role _ | apiKey _ | tier _ _ _ => False
  | _ => True

section Call

variable {env : Env} {layer : Layer} {layers : List Layer} {request next reached : Request}

theorem map_eq_ok {E A B : Type*} {result : Except E A} {f : A → B} {value : B}
    (hmap : result.map f = .ok value) : ∃ found, result = .ok found ∧ f found = value := by
  cases result with
  | error response => cases hmap
  | ok found => exact ⟨found, rfl, Except.ok.inj hmap⟩

theorem mapError_eq_ok {E F A : Type*} {result : Except E A} {f : E → F} {value : A}
    (hmap : result.mapError f = .ok value) : result = .ok value := by
  cases result with
  | error failure => cases hmap
  | ok found => exact congrArg Except.ok (Except.ok.inj hmap)

theorem bind_eq_ok {E A B : Type*} {result : Except E A} {f : A → Except E B} {value : B}
    (hbind : result.bind f = .ok value) : ∃ found, result = .ok found ∧ f found = .ok value := by
  cases result with
  | error response => cases hbind
  | ok found => exact ⟨found, rfl, hbind⟩

/-- A limit that is there lets a request pass below the ceiling. -/
theorem requireLimit_eq_ok {name : String} {usage : Request → Except Response ℕ}
    {tier : TierInfo} (htier : request.extensions.tier = some tier)
    (hcall : call env (.requireLimit name usage) request = .ok next) :
    next = request ∧ (Layer.requireLimit name usage).Allows request := by
  simp only [call, htier] at hcall
  obtain ⟨ceiling, hceiling, hcall⟩ := bind_eq_ok hcall
  have hlimit : tier.features.lookup name = some (.limit ceiling) := by
    unfold TierInfo.limitCeiling at hceiling
    split at hceiling
    · rename_i found hfound
      rw [hfound, Except.ok.inj hceiling]
    · cases hceiling
    · cases hceiling
  by_cases hzero : ceiling = 0
  · rw [if_pos hzero] at hcall
    cases hcall
  · rw [if_neg hzero] at hcall
    obtain ⟨current, hcurrent, hcall⟩ := bind_eq_ok hcall
    by_cases hreached : ceiling ≤ current
    · rw [if_pos hreached] at hcall
      cases hcall
    · rw [if_neg hreached] at hcall
      exact ⟨(Except.ok.inj hcall).symm, tier, ceiling, current, htier, hlimit, hcurrent,
        not_le.mp hreached⟩

/-- A guard passes the request on as it is, when it finds what it asks for. -/
theorem guard_eq_ok (hcall : call env layer request = .ok next) (hguard : layer.IsGuard) :
    next = request ∧ layer.Allows request := by
  cases layer with
  | session load => exact hguard.elim
  | role extract => exact hguard.elim
  | apiKey header => exact hguard.elim
  | tier resolve extract default => exact hguard.elim
  | requireRole roles =>
      cases hrole : request.extensions.role with
      | none => simp [call, hrole] at hcall
      | some role =>
          by_cases hmem : role ∈ roles
          · simp only [call, hrole, if_pos hmem, Except.ok.injEq] at hcall
            exact ⟨hcall.symm, role, hmem, hrole⟩
          · simp [call, hrole, hmem] at hcall
  | requireAuthenticated redirectTo =>
      cases hsession : request.extensions.session with
      | false => simp [call, hsession] at hcall
      | true =>
          simp only [call, hsession, if_true, Except.ok.injEq] at hcall
          exact ⟨hcall.symm, hsession⟩
  | requireUnauthenticated redirectTo =>
      cases hsession : request.extensions.session with
      | true => simp [call, hsession] at hcall
      | false =>
          simp only [call, hsession, Bool.false_eq_true, if_false, Except.ok.injEq] at hcall
          exact ⟨hcall.symm, hsession⟩
  | requireScope scope =>
      cases hkey : request.extensions.apiKey with
      | none => simp [call, hkey] at hcall
      | some key =>
          by_cases hmem : scope ∈ key.scopes
          · simp only [call, hkey, if_pos hmem, Except.ok.injEq] at hcall
            exact ⟨hcall.symm, key, hkey, hmem⟩
          · simp [call, hkey, hmem] at hcall
  | requireFeature name =>
      cases htier : request.extensions.tier with
      | none => simp [call, htier] at hcall
      | some tier =>
          by_cases hfeature : tier.hasFeature name = true
          · simp only [call, htier, if_pos hfeature, Except.ok.injEq] at hcall
            exact ⟨hcall.symm, tier, htier, hfeature⟩
          · simp [call, htier, hfeature] at hcall
  | requireLimit name usage =>
      cases htier : request.extensions.tier with
      | none => simp [call, htier] at hcall
      | some tier => exact requireLimit_eq_ok htier hcall

/-- What a layer passes on keeps what it does not write. -/
structure Keeps (layer : Layer) (request next : Request) : Prop where
  headers : next.headers = request.headers
  session : ¬WritesSession layer request → next.extensions.session = request.extensions.session
  role : ¬WritesRole layer request → next.extensions.role = request.extensions.role
  apiKey : ¬WritesApiKey layer request → next.extensions.apiKey = request.extensions.apiKey
  tier : ¬WritesTier layer request → next.extensions.tier = request.extensions.tier

theorem keeps_call (hcall : call env layer request = .ok next) : Keeps layer request next := by
  by_cases hguard : layer.IsGuard
  · obtain ⟨rfl, -⟩ := guard_eq_ok hcall hguard
    exact ⟨rfl, fun _ => rfl, fun _ => rfl, fun _ => rfl, fun _ => rfl⟩
  · cases layer with
    | session load =>
        obtain ⟨found, hload, rfl⟩ := map_eq_ok hcall
        refine ⟨rfl, fun hwrites => ?_, fun _ => rfl, fun _ => rfl, fun _ => rfl⟩
        cases found with
        | false => exact Bool.or_false _
        | true => exact absurd ⟨load, rfl, hload⟩ hwrites
    | role extract =>
        obtain ⟨role, -, rfl⟩ := map_eq_ok hcall
        exact ⟨rfl, fun _ => rfl, fun hwrites => absurd ⟨extract, rfl⟩ hwrites, fun _ => rfl,
          fun _ => rfl⟩
    | apiKey header =>
        obtain ⟨token, -, hverify⟩ := bind_eq_ok hcall
        obtain ⟨key, -, rfl⟩ := map_eq_ok hverify
        exact ⟨rfl, fun _ => rfl, fun _ => rfl, fun hwrites => absurd ⟨header, rfl⟩ hwrites,
          fun _ => rfl⟩
    | tier resolve extract default =>
        cases howner : extract request with
        | some owner =>
            simp only [call, howner] at hcall
            obtain ⟨tier, -, rfl⟩ := map_eq_ok hcall
            refine ⟨rfl, fun _ => rfl, fun _ => rfl, fun _ => rfl, fun hwrites => ?_⟩
            exact absurd ⟨resolve, extract, default, rfl, .inl (by rw [howner]; rfl)⟩ hwrites
        | none =>
            simp only [call, howner, Except.ok.injEq] at hcall
            subst hcall
            refine ⟨rfl, fun _ => rfl, fun _ => rfl, fun _ => rfl, fun hwrites => ?_⟩
            cases default with
            | none => rfl
            | some tier => exact absurd ⟨resolve, extract, some tier, rfl, .inr rfl⟩ hwrites
    | _ => exact absurd trivial hguard

theorem serve_headers (hserve : serve env layers request = .ok reached) :
    reached.headers = request.headers :=
  Pipeline.run_eq (fun _ _ _ hcall => (keeps_call hcall).headers) hserve

end Call

/-! ## What stands behind a key -/

section Created

variable (sha256 : List UInt8 → String) (parseRfc3339 : String → Option DateTime)
  (store : ApiKeyStore)

/-- In a run of the store `create` returned the token of a key for a request. -/
def CreatedFor (actions : List (ApiKey.Action store.config)) (request : ApiKey.CreateKeyRequest)
    (id rawToken : List Char) : Prop :=
  ∃ state ulid secret now next created,
    Machine.Taken (ApiKey.step sha256 parseRfc3339 store) ApiKey.State.initial actions state
      (.create request ulid secret now) next ∧
    ApiKey.create sha256 parseRfc3339 store.config request ulid secret now state.table =
      .ok (next.table, created) ∧ created.id = id ∧ created.rawToken = rawToken

variable {sha256 parseRfc3339 store} {state next : ApiKey.State}

/-- The scopes of a key were there before the step, or the step creates the key with them. -/
theorem step_scopes {action : ApiKey.Action store.config} {id : List Char}
    {record : ApiKey.ApiKeyRecord}
    (hstep : ApiKey.step sha256 parseRfc3339 store state action = some next)
    (hget : next.table.get? id = some record) :
    (∃ old, state.table.get? id = some old ∧ old.scopes = record.scopes) ∨
      ∃ request ulid secret now created, action = .create request ulid secret now ∧
        ApiKey.create sha256 parseRfc3339 store.config request ulid secret now state.table =
          .ok (next.table, created) ∧
        created.id = id ∧ .created id created.rawToken created.expiresAt ∈ next.log ∧
          request.scopes = record.scopes := by
  have hmodified : ∀ {key : List Char} {f : ApiKey.ApiKeyRecord → ApiKey.ApiKeyRecord},
      (if id = key then (state.table.get? id).map f else state.table.get? id) = some record →
      (∀ old, (f old).scopes = old.scopes) →
      ∃ old, state.table.get? id = some old ∧ old.scopes = record.scopes := by
    intro key f hrecord hscopes
    split at hrecord
    · obtain ⟨old, hold, rfl⟩ := Option.map_eq_some_iff.mp hrecord
      exact ⟨old, hold, (hscopes old).symm⟩
    · exact ⟨record, hrecord, rfl⟩
  cases action with
  | create request ulid secret now =>
      simp only [ApiKey.step] at hstep
      split at hstep
      · cases hstep
        exact .inl ⟨record, hget, rfl⟩
      · rename_i table created hcreate
        cases hstep
        obtain ⟨hinsert, hid, -, -⟩ := ApiKey.create_eq_ok hcreate
        rw [Table.get?_insert hinsert] at hget
        split at hget
        · rename_i hkey
          have hcreated : created.id = id := hid.trans hkey
          refine .inr ⟨request, ulid, secret, now, created, rfl, hcreate, hcreated, ?_, ?_⟩
          · rw [← hcreated]
            exact List.mem_cons_self
          · rw [← Option.some.inj hget]
            rfl
        · exact .inl ⟨record, hget, rfl⟩
  | verify rawToken now later =>
      simp only [ApiKey.step] at hstep
      split at hstep
      · cases hstep
        exact .inl ⟨record, hget, rfl⟩
      · split at hstep <;> cases hstep <;> exact .inl ⟨record, hget, rfl⟩
  | touch key now =>
      simp only [ApiKey.step] at hstep
      split at hstep
      · cases hstep
        rw [ApiKey.get?_updateLastUsed] at hget
        exact .inl (hmodified hget fun _ => rfl)
      · cases hstep
  | revoke key =>
      simp only [ApiKey.step] at hstep
      split at hstep <;> cases hstep <;> exact .inl ⟨record, hget, rfl⟩
  | revokeUpdate key now =>
      simp only [ApiKey.step] at hstep
      split at hstep
      · cases hstep
        rw [ApiKey.get?_updateRevokedAt] at hget
        exact .inl (hmodified hget fun _ => rfl)
      · cases hstep
  | refresh key expiresAt =>
      simp only [ApiKey.step] at hstep
      split at hstep <;> cases hstep <;> exact .inl ⟨record, hget, rfl⟩
  | refreshUpdate key expiresAt =>
      simp only [ApiKey.step] at hstep
      split at hstep
      · cases hstep
        rw [ApiKey.get?_updateExpiresAt] at hget
        exact .inl (hmodified hget fun _ => rfl)
      · cases hstep
  | list tenantId =>
      cases hstep
      exact .inl ⟨record, hget, rfl⟩

/-- A key that is stored was created in the run, with the scopes it has. -/
theorem run_scopes {actions : List (ApiKey.Action store.config)} {id : List Char}
    {record : ApiKey.ApiKeyRecord}
    (hrun : Machine.run (ApiKey.step sha256 parseRfc3339 store) ApiKey.State.initial actions =
      some state)
    (hget : state.table.get? id = some record) :
    ∃ request rawToken, CreatedFor sha256 parseRfc3339 store actions request id rawToken ∧
      Issued state.log id rawToken ∧ request.scopes = record.scopes := by
  induction actions using List.reverseRecOn generalizing state record with
  | nil =>
      cases hrun
      simp [ApiKey.State.initial] at hget
  | append_singleton actions action ih =>
      obtain ⟨middle, hbefore, hlast⟩ := Machine.run_append_eq_some.mp hrun
      have hstep := Machine.run_singleton_eq_some.mp hlast
      rcases step_scopes hstep hget with ⟨old, hold, hscopes⟩ |
        ⟨request, ulid, secret, now, created, rfl, hcreate, rfl, hlog, hscopes⟩
      · obtain ⟨request, rawToken, hcreated, ⟨expiresAt, hissued⟩, hsame⟩ := ih hbefore hold
        obtain ⟨before, ulid, secret, now, after, created, htaken, hcreate⟩ := hcreated
        exact ⟨request, rawToken,
          ⟨before, ulid, secret, now, after, created, htaken.append_right [action], hcreate⟩,
          ⟨expiresAt, ApiKey.step_log hstep hissued⟩, hsame.trans hscopes⟩
      · exact ⟨request, created.rawToken,
          ⟨middle, ulid, secret, now, state, created, ⟨actions, [], rfl, hbefore, hstep⟩, hcreate,
            rfl, rfl⟩, ⟨created.expiresAt, hlog⟩, hscopes⟩

/-- A key that is verified was created in the run, which returned the token for it, and has the
scopes it was created with. -/
theorem verify_created (hinj : Function.Injective sha256)
    {actions : List (ApiKey.Action store.config)}
    (hrun : Machine.run (ApiKey.step sha256 parseRfc3339 store) ApiKey.State.initial actions =
      some state)
    {token : List Char} {now : DateTime} {key : ApiKeyMeta}
    (hverify : ApiKey.verify sha256 parseRfc3339 store.config token now state.table = .ok key) :
    (∃ request, CreatedFor sha256 parseRfc3339 store actions request key.id token ∧
        request.scopes = key.scopes) ∧
      ¬Revoked state.log key.id ∧ Unexpired parseRfc3339 state.log key.id now := by
  have hconsistent := ApiKey.run_consistent hrun
  obtain ⟨hissued, hrevoked, hunexpired⟩ :=
    (ApiKey.verify_ok_iff hinj hconsistent token now key.id).mp ⟨key, hverify, rfl⟩
  refine ⟨?_, hrevoked, hunexpired⟩
  obtain ⟨record, hrecord, rfl⟩ := ApiKey.verify_eq_ok.mp hverify
  obtain ⟨parsed, -, hparsed, -, -⟩ := ApiKey.verifyRecord_eq_ok.mp hrecord
  have hget : state.table.get? record.id = some record := by
    rw [show record.id = parsed.id from Table.get?_key hparsed]
    exact hparsed
  obtain ⟨request, rawToken, hcreated, hreturned, hscopes⟩ := run_scopes hrun hget
  -- one token was issued for a key
  obtain ⟨ulid, secret, -, -, htokens⟩ := (hconsistent.records record.id record hget).issued
  have hsame : rawToken = token :=
    ((htokens rawToken).mp hreturned).trans ((htokens token).mp hissued).symm
  exact ⟨request, hsame ▸ hcreated, hscopes⟩

end Created

/-! ## What the guards grant -/

section Granted

variable (sha256 : List UInt8 → String) (parseRfc3339 : String → Option DateTime)
  (store : ApiKeyStore) (actions : List (ApiKey.Action store.config)) (state : ApiKey.State)

/-- The store after a run, at the time of the request. -/
def Env.after (now : DateTime) : Env := ⟨sha256, parseRfc3339, store, state.table, now⟩

/-- The tier a layer resolves for a request. -/
def Resolves (resolve : String → Except Response TierInfo) (extract : Request → Option String)
    (default : Option TierInfo) (request : Request) (tier : TierInfo) : Prop :=
  (∃ owner, extract request = some owner ∧ resolve owner = .ok tier) ∨
    extract request = none ∧ default = some tier

/-- The last layer before the guard that writes a tier resolved this one. -/
def ResolvedBy (env : Env) (before : List Layer) (request : Request) (tier : TierInfo) : Prop :=
  ∃ resolve extract default middle next,
    Pipeline.LastWrite (call env) WritesTier before request (.tier resolve extract default)
      middle next ∧
    Resolves resolve extract default middle tier

/-- What a guard grants, behind the layers before it. -/
def Granted (now : DateTime) (before : List Layer) (request : Request) : Layer → Prop
  | .requireRole roles =>
      ∃ extract middle next role,
        Pipeline.LastWrite (call (Env.after sha256 parseRfc3339 store state now)) WritesRole before
          request (.role extract) middle next ∧
        extract middle = .ok role ∧ role ∈ roles
  | .requireAuthenticated _ =>
      ∃ load middle next,
        Pipeline.LastWrite (call (Env.after sha256 parseRfc3339 store state now)) WritesSession
          before request (.session load) middle next
  | .requireUnauthenticated _ =>
      ∀ first load rest middle, before = first ++ .session load :: rest →
        serve (Env.after sha256 parseRfc3339 store state now) first request = .ok middle →
        load middle = .ok false
  | .requireScope scope =>
      ∃ header middle next token created id,
        Pipeline.LastWrite (call (Env.after sha256 parseRfc3339 store state now)) WritesApiKey
          before request (.apiKey header) middle next ∧
        extractToken request.headers header = .ok token ∧
        CreatedFor sha256 parseRfc3339 store actions created id token ∧ scope ∈ created.scopes ∧
        ¬Revoked state.log id ∧ Unexpired parseRfc3339 state.log id now
  | .requireFeature name =>
      ∃ tier, ResolvedBy (Env.after sha256 parseRfc3339 store state now) before request tier ∧
        tier.hasFeature name = true
  | .requireLimit name usage =>
      ∃ tier ceiling passed current,
        ResolvedBy (Env.after sha256 parseRfc3339 store state now) before request tier ∧
        tier.features.lookup name = some (.limit ceiling) ∧
        serve (Env.after sha256 parseRfc3339 store state now) before request = .ok passed ∧
        usage passed = .ok current ∧ current < ceiling
  | .session _ | .role _ | .apiKey _ | .tier _ _ _ => True

end Granted

section Written

variable {env : Env} {layers : List Layer} {headers : HeaderMap} {reached : Request}

theorem role_written (hserve : serve env layers ⟨headers, {}⟩ = .ok reached) {role : String}
    (hrole : reached.extensions.role = some role) :
    ∃ extract middle next,
      Pipeline.LastWrite (call env) WritesRole layers ⟨headers, {}⟩ (.role extract) middle next ∧
        extract middle = .ok role := by
  rcases Pipeline.eq_or_lastWrite (fun request => request.extensions.role) WritesRole
    (fun _ _ _ hnot hcall => (keeps_call hcall).role hnot) hserve with
    hsame | ⟨layer, middle, next, hlast, hread⟩
  · cases hsame.symm.trans hrole
  · obtain ⟨extract, rfl⟩ := hlast.writes
    obtain ⟨found, hfound, rfl⟩ := map_eq_ok hlast.call_eq
    obtain rfl : found = role := Option.some.inj (hread.symm.trans hrole)
    exact ⟨extract, middle, _, hlast, hfound⟩

theorem session_written (hserve : serve env layers ⟨headers, {}⟩ = .ok reached)
    (hsession : reached.extensions.session = true) :
    ∃ load middle next,
      Pipeline.LastWrite (call env) WritesSession layers ⟨headers, {}⟩ (.session load) middle
        next := by
  rcases Pipeline.eq_or_lastWrite (fun request => request.extensions.session)
    WritesSession (fun _ _ _ hnot hcall => (keeps_call hcall).session hnot) hserve with
    hsame | ⟨layer, middle, next, hlast, -⟩
  · cases hsame.symm.trans hsession
  · obtain ⟨load, rfl, -⟩ := hlast.writes
    exact ⟨load, middle, next, hlast⟩

theorem apiKey_written (hserve : serve env layers ⟨headers, {}⟩ = .ok reached)
    {key : ApiKeyMeta} (hkey : reached.extensions.apiKey = some key) :
    ∃ header middle next token,
      Pipeline.LastWrite (call env) WritesApiKey layers ⟨headers, {}⟩ (.apiKey header) middle
        next ∧
      extractToken headers header = .ok token ∧ env.verify token = .ok key := by
  rcases Pipeline.eq_or_lastWrite (fun request => request.extensions.apiKey)
    WritesApiKey (fun _ _ _ hnot hcall => (keeps_call hcall).apiKey hnot) hserve with
    hsame | ⟨layer, middle, next, hlast, hread⟩
  · cases hsame.symm.trans hkey
  · obtain ⟨header, rfl⟩ := hlast.writes
    obtain ⟨token, htoken, hverify⟩ := bind_eq_ok hlast.call_eq
    obtain ⟨found, hfound, rfl⟩ := map_eq_ok hverify
    obtain rfl : found = key := Option.some.inj (hread.symm.trans hkey)
    obtain ⟨before, after, -, hbefore, -⟩ := hlast.place
    have hheaders : middle.headers = headers := serve_headers hbefore
    rw [hheaders] at htoken
    exact ⟨header, middle, _, token, hlast, htoken, hfound⟩

theorem tier_written (hserve : serve env layers ⟨headers, {}⟩ = .ok reached) {tier : TierInfo}
    (htier : reached.extensions.tier = some tier) : ResolvedBy env layers ⟨headers, {}⟩ tier := by
  rcases Pipeline.eq_or_lastWrite (fun request => request.extensions.tier) WritesTier
    (fun _ _ _ hnot hcall => (keeps_call hcall).tier hnot) hserve with
    hsame | ⟨layer, middle, next, hlast, hread⟩
  · cases hsame.symm.trans htier
  · obtain ⟨resolve, extract, default, rfl, hwrites⟩ := hlast.writes
    refine ⟨resolve, extract, default, middle, next, hlast, ?_⟩
    have hcall := hlast.call_eq
    cases howner : extract middle with
    | some owner =>
        simp only [call, howner] at hcall
        obtain ⟨found, hfound, rfl⟩ := map_eq_ok hcall
        obtain rfl : found = tier := Option.some.inj (hread.symm.trans htier)
        exact .inl ⟨owner, howner, hfound⟩
    | none =>
        simp only [call, howner, Except.ok.injEq] at hcall
        cases default with
        | none => simp [howner] at hwrites
        | some found =>
            subst hcall
            obtain rfl : found = tier := Option.some.inj (hread.symm.trans htier)
            exact .inr ⟨howner, rfl⟩

/-- A session that is there is not taken away. -/
theorem session_stays {request next : Request} {layer : Layer}
    (hcall : call env layer request = .ok next) (hsession : request.extensions.session = true) :
    next.extensions.session = true := by
  by_cases hwrites : WritesSession layer request
  · obtain ⟨load, rfl, hload⟩ := hwrites
    obtain ⟨found, -, rfl⟩ := map_eq_ok hcall
    exact Bool.or_eq_true_iff.mpr (.inl hsession)
  · exact ((keeps_call hcall).session hwrites).trans hsession

/-- Without a session at the end no layer has found one. -/
theorem session_not_written (hserve : serve env layers ⟨headers, {}⟩ = .ok reached)
    (hsession : reached.extensions.session = false) {first rest : List Layer}
    {load : Request → Except Response Bool} {middle : Request}
    (hsplit : layers = first ++ .session load :: rest)
    (hfirst : serve env first ⟨headers, {}⟩ = .ok middle) : load middle = .ok false := by
  subst hsplit
  obtain ⟨there, hthere, hlater⟩ := Pipeline.run_append_eq_ok.mp hserve
  obtain rfl : there = middle := Except.ok.inj (hthere.symm.trans hfirst)
  obtain ⟨next, hnext, hrest⟩ := Pipeline.run_cons_eq_ok.mp hlater
  obtain ⟨found, hload, rfl⟩ := map_eq_ok hnext
  cases found with
  | false => exact hload
  | true =>
      have hstays := Pipeline.run_invariant (fun request => request.extensions.session = true)
        (fun _ _ _ hthere hcall => session_stays hcall hthere)
        (show (there.extensions.session || true) = true from Bool.or_true _) hrest
      exact absurd (hsession.symm.trans hstays) Bool.false_ne_true

end Written

/-- **The guards in front of a handler**: a request that reaches a handler got through every
guard, and each of them found what it asks for as the last layer of the kind before it put it
there.  Behind `require_scope` the request carries a token that was returned for a key with that
scope, which has neither been revoked nor expired. -/
theorem guarded_request {sha256 : List UInt8 → String} (hinj : Function.Injective sha256)
    (parseRfc3339 : String → Option DateTime) (store : ApiKeyStore)
    (actions : List (ApiKey.Action store.config)) (state : ApiKey.State)
    (hrun : Machine.run (ApiKey.step sha256 parseRfc3339 store) ApiKey.State.initial actions =
      some state)
    (now : DateTime) (layers : List Layer) (headers : HeaderMap) (reached : Request)
    (hserve : serve (Env.after sha256 parseRfc3339 store state now) layers ⟨headers, {}⟩ =
      .ok reached) :
    ∀ before guard after, layers = before ++ guard :: after →
      Granted sha256 parseRfc3339 store actions state now before ⟨headers, {}⟩ guard := by
  rintro before guard after rfl
  obtain ⟨passed, hbefore, hlater⟩ := Pipeline.run_append_eq_ok.mp hserve
  obtain ⟨next, hguard, -⟩ := Pipeline.run_cons_eq_ok.mp hlater
  cases guard with
  | session load => trivial
  | role extract => trivial
  | apiKey header => trivial
  | tier resolve extract default => trivial
  | requireRole roles =>
      obtain ⟨-, role, hmem, hrole⟩ := guard_eq_ok hguard trivial
      obtain ⟨extract, middle, written, hlast, hextract⟩ := role_written hbefore hrole
      exact ⟨extract, middle, written, role, hlast, hextract, hmem⟩
  | requireAuthenticated redirectTo =>
      obtain ⟨-, hsession⟩ := guard_eq_ok hguard trivial
      exact session_written hbefore hsession
  | requireUnauthenticated redirectTo =>
      obtain ⟨-, hsession⟩ := guard_eq_ok hguard trivial
      exact fun first load rest middle hsplit hfirst =>
        session_not_written hbefore hsession hsplit hfirst
  | requireScope scope =>
      obtain ⟨-, key, hkey, hscope⟩ := guard_eq_ok hguard trivial
      obtain ⟨header, middle, written, token, hlast, htoken, hverify⟩ :=
        apiKey_written hbefore hkey
      obtain ⟨⟨created, hcreated, hscopes⟩, hrevoked, hunexpired⟩ :=
        verify_created hinj hrun (mapError_eq_ok hverify)
      exact ⟨header, middle, written, token, created, key.id, hlast, htoken, hcreated,
        hscopes ▸ hscope, hrevoked, hunexpired⟩
  | requireFeature name =>
      obtain ⟨-, tier, htier, hfeature⟩ := guard_eq_ok hguard trivial
      exact ⟨tier, tier_written hbefore htier, hfeature⟩
  | requireLimit name usage =>
      obtain ⟨-, tier, ceiling, current, htier, hlimit, hcurrent, hbelow⟩ :=
        guard_eq_ok hguard trivial
      exact ⟨tier, ceiling, passed, current, tier_written hbefore htier, hlimit, hbefore,
        hcurrent, hbelow⟩

/-- The layers of an API for the users of a plan. -/
def sampleLayers : List Layer :=
  [.session fun _ => .ok true, .requireAuthenticated (Http.ofText "/login".toList),
    .apiKey .authorization, .requireScope "read",
    .tier (fun _ => .error (unauthorized "no tenant")) (fun _ => none)
      (some ⟨"free", AList.insert "exports" (.limit 3) ∅⟩),
    .requireLimit "exports" fun _ => .ok 2]

/-- A request with the token of the first key. -/
def sampleHeaders : HeaderMap :=
  [("authorization", Http.ofText ("Bearer ".toList ++
    ApiKey.formatToken "modo".toList ApiKey.firstUlid.text ApiKey.firstSecret.text))]

/-- The request gets through, so that a run of the store returned its token for a key that may
read. -/
theorem guarded_request_read :
    ∃ state, Machine.run (ApiKey.step ApiKey.sampleSha256 ApiKey.sampleParse ApiKey.sampleStore)
        ApiKey.State.initial ApiKey.sampleRun = some state ∧
      ∃ token created id, extractToken sampleHeaders .authorization = .ok token ∧
        CreatedFor ApiKey.sampleSha256 ApiKey.sampleParse ApiKey.sampleStore ApiKey.sampleRun
          created id token ∧
        "read" ∈ created.scopes ∧ ¬Revoked state.log id := by
  have hany : (Machine.run (ApiKey.step ApiKey.sampleSha256 ApiKey.sampleParse ApiKey.sampleStore)
      ApiKey.State.initial ApiKey.sampleRun).any (fun state => decide
        ((serve (Env.after ApiKey.sampleSha256 ApiKey.sampleParse ApiKey.sampleStore state
          (DateTime.ofSecs 1767225600)) sampleLayers ⟨sampleHeaders, {}⟩).isOk = true)) = true := by
    decide +kernel
  obtain ⟨state, hrun, hserved⟩ := Machine.exists_final hany
  refine ⟨state, hrun, ?_⟩
  cases hserve : serve (Env.after ApiKey.sampleSha256 ApiKey.sampleParse ApiKey.sampleStore state
      (DateTime.ofSecs 1767225600)) sampleLayers ⟨sampleHeaders, {}⟩ with
  | error response =>
      rw [hserve] at hserved
      cases hserved
  | ok reached =>
      obtain ⟨header, middle, next, token, created, id, hlast, htoken, hcreated, hscope, hrevoked,
          -⟩ :=
        guarded_request ApiKey.sampleSha256_inj ApiKey.sampleParse ApiKey.sampleStore
          ApiKey.sampleRun state hrun _ sampleLayers sampleHeaders reached hserve
          (sampleLayers.take 3) (.requireScope "read") (sampleLayers.drop 4) rfl
      -- the layer with the key is the third
      obtain ⟨before, after, hsplit, -⟩ := hlast.place
      have hmem : Layer.apiKey header ∈ sampleLayers.take 3 := by
        rw [hsplit]
        simp
      obtain rfl : header = .authorization := by
        simpa [sampleLayers] using hmem
      exact ⟨token, created, id, htoken, hcreated, hscope, hrevoked⟩

end Modo.Auth
