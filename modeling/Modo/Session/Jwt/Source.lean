import Modo.Http.Cookies
import Modo.Json

/-!
# Where the JWT tokens of a request are read

`TokenSourceConfig` says where a token is, and `build` makes the source that reads it.
`JwtSession` reads its tokens on its own, by a second implementation of the same rules, and
the layer of a service reads the `Authorization` header whatever is configured.

`sources_agree_iff` says for which configurations and requests the three agree.
-/

namespace Modo.Sessions.Jwt

open Http

/-- `TokenSource`. -/
abbrev TokenSource := Parts → Option (List Char)

/-- `TokenSourceConfig`. -/
inductive TokenSourceConfig where
  | bearer
  | cookie (name : String)
  | header (name : String)
  | query (name : String)
  | body (field : String)
  deriving DecidableEq

/-- The sources of `JwtSessionsConfig`. -/
structure JwtSourcesConfig where
  accessSource : TokenSourceConfig := .bearer
  refreshSource : TokenSourceConfig := .body "refresh_token"

/-- A value that is not empty. -/
def isNonEmpty (value : List Char) : Bool := !value.isEmpty

/-! ## The sources -/

/-- `BearerSource::extract`. -/
def bearerSource : TokenSource := fun parts =>
  match parts.headers.getStr "authorization" with
  | none => none
  | some value =>
      match Utf8.splitOnce ' ' value with
      | none => none
      | some (scheme, rest) =>
          if Text.eqIgnoreAsciiCase scheme "Bearer".toList = false then none
          else if (Text.trimStart rest).isEmpty then none
          else some (Text.trimStart rest)

/-- One pair of a query. -/
def queryValue (name : String) (pair : List Char) : Option (List Char) :=
  match Utf8.splitOnce '=' pair with
  | some (key, value) => if key = name.toList ∧ isNonEmpty value = true then some value else none
  | none => none

/-- The loop over the pairs of a query. -/
def findQuery (name : String) (query : List Char) : Option (List Char) :=
  (query.splitOn '&').findSome? (queryValue name)

/-- `extract_query`. -/
def extractQuery (name : String) : TokenSource := fun parts => parts.query.bind (findQuery name)

/-- `extract_cookie`. -/
def extractCookie (name : String) : TokenSource := fun parts =>
  cookieIn name isNonEmpty parts.headers

/-- `extract_header`. -/
def extractHeader (name : String) : TokenSource := fun parts =>
  match parts.headers.getStr name with
  | none => none
  | some value => if value.isEmpty then none else some value

/-- `TokenSourceConfig::build`: a body falls back to the bearer token. -/
def TokenSourceConfig.build : TokenSourceConfig → TokenSource
  | .bearer => bearerSource
  | .cookie name => extractCookie name
  | .header name => extractHeader name
  | .query name => extractQuery name
  | .body _ => bearerSource

/-! ## The extractor -/

/-- `Error`, with its status, its message and its code. -/
structure ErrorResponse where
  status : ℕ
  message : String
  code : Option String
  deriving DecidableEq

def accessMissing : ErrorResponse :=
  { status := 401, message := "unauthorized", code := some "auth:access_missing" }

def refreshMissing : ErrorResponse :=
  { status := 401, message := "unauthorized", code := some "auth:refresh_missing" }

def refreshMissingInBody : ErrorResponse :=
  { status := 400, message := "refresh token missing", code := some "auth:refresh_missing" }

def accessBodyUnsupported : ErrorResponse :=
  { status := 500, message := "access_source=Body is not supported", code := none }

/-- `JwtSession`. -/
structure JwtSession where
  config : JwtSourcesConfig
  parts : Parts
  bodyRefresh : Option (List Char)

/-- The largest body that is read. -/
def bodyLimit : ℕ := 1024 * 1024

/-- `JwtSession::from_request`; `fromSlice` is `serde_json::from_slice`. -/
def JwtSession.fromRequest (fromSlice : List UInt8 → Option Json) (config : JwtSourcesConfig)
    (parts : Parts) (body : List UInt8) : JwtSession where
  config := config
  parts := parts
  bodyRefresh :=
    match config.refreshSource with
    | .body field =>
        if body.length ≤ bodyLimit then
          (((fromSlice body).bind (Json.get field)).bind Json.asStr).map String.toList
        else none
    | _ => none

namespace JwtSession

/-- What stands behind the scheme of a bearer token, which may be nothing. -/
def bearerRest (parts : Parts) : Option (List Char) :=
  ((parts.headers.getStr "authorization").bind (Utf8.splitOnce ' ')).bind fun (scheme, rest) =>
    if Text.eqIgnoreAsciiCase scheme "Bearer".toList then some (Text.trimStart rest) else none

/-- The match on a cookie. -/
def cookieToken (parts : Parts) (name : String) (missing : ErrorResponse) :
    Except ErrorResponse (List Char) :=
  match findCookie name isNonEmpty ((parts.headers.getStr "cookie").getD []) with
  | some value => .ok value
  | none => .error missing

/-- The match on a header. -/
def headerToken (parts : Parts) (name : String) (missing : ErrorResponse) :
    Except ErrorResponse (List Char) :=
  match (parts.headers.getStr name).filter isNonEmpty with
  | some value => .ok value
  | none => .error missing

/-- The match on a query parameter. -/
def queryToken (parts : Parts) (name : String) (missing : ErrorResponse) :
    Except ErrorResponse (List Char) :=
  match findQuery name (parts.query.getD []) with
  | some value => .ok value
  | none => .error missing

/-- `find_access_token`. -/
def findAccessToken (session : JwtSession) : Except ErrorResponse (List Char) :=
  match session.config.accessSource with
  | .bearer =>
      match bearerRest session.parts with
      | some token => .ok token
      | none => .error accessMissing
  | .cookie name => cookieToken session.parts name accessMissing
  | .header name => headerToken session.parts name accessMissing
  | .query name => queryToken session.parts name accessMissing
  | .body _ => .error accessBodyUnsupported

/-- `find_refresh_token`. -/
def findRefreshToken (session : JwtSession) : Except ErrorResponse (List Char) :=
  match session.bodyRefresh with
  | some token => .ok token
  | none =>
      match session.config.refreshSource with
      | .body _ => .error refreshMissingInBody
      | .bearer => session.findAccessToken
      | .cookie name => cookieToken session.parts name refreshMissing
      | .header name => headerToken session.parts name refreshMissing
      | .query name => queryToken session.parts name refreshMissing

end JwtSession

/-! ## The layer -/

/-- The sources of a `JwtLayer`. -/
structure JwtLayer where
  sources : List TokenSource

/-- `JwtLayer::from_service`: the configuration of the service is not read. -/
def JwtLayer.fromService (_config : JwtSourcesConfig) : JwtLayer := { sources := [bearerSource] }

/-- `JwtLayer::with_sources`. -/
def JwtLayer.withSources (_layer : JwtLayer) (sources : List TokenSource) : JwtLayer :=
  { sources := sources }

/-- The token of a request: the first one that a source yields. -/
def JwtLayer.token (layer : JwtLayer) (parts : Parts) : Option (List Char) :=
  layer.sources.findSome? fun source => source parts

/-! ## Agreement -/

theorem filter_isNonEmpty (value : List Char) :
    (some value).filter isNonEmpty = if value.isEmpty then none else some value := by
  cases value <;> rfl

/-- A bearer token is what stands behind the scheme, if that is something. -/
theorem bearerSource_eq (parts : Parts) :
    bearerSource parts = (JwtSession.bearerRest parts).filter isNonEmpty := by
  unfold bearerSource JwtSession.bearerRest
  cases hvalue : parts.headers.getStr "authorization" with
  | none => rfl
  | some value =>
      simp only [Option.bind_some]
      cases hsplit : Utf8.splitOnce ' ' value with
      | none => rfl
      | some pair =>
          obtain ⟨scheme, rest⟩ := pair
          simp only [Option.bind_some]
          cases hscheme : Text.eqIgnoreAsciiCase scheme "Bearer".toList with
          | false => rfl
          | true =>
              simp only [Bool.true_eq_false, if_false, if_true]
              rw [filter_isNonEmpty]

/-- A missing token is an error. -/
theorem toOption_ok_or (found : Option (List Char)) (missing : ErrorResponse) :
    (match found with
      | some value => Except.ok value
      | none => Except.error missing : Except ErrorResponse (List Char)).toOption = found := by
  cases found <;> rfl

theorem toOption_cookieToken (parts : Parts) (name : String) (missing : ErrorResponse) :
    (JwtSession.cookieToken parts name missing).toOption = extractCookie name parts := by
  rw [JwtSession.cookieToken, toOption_ok_or, extractCookie, cookieIn]
  cases parts.headers.getStr "cookie" <;> rfl

theorem toOption_headerToken (parts : Parts) (name : String) (missing : ErrorResponse) :
    (JwtSession.headerToken parts name missing).toOption = extractHeader name parts := by
  rw [JwtSession.headerToken, toOption_ok_or, extractHeader]
  cases parts.headers.getStr name with
  | none => rfl
  | some value => exact filter_isNonEmpty value

theorem toOption_queryToken (parts : Parts) (name : String) (missing : ErrorResponse) :
    (JwtSession.queryToken parts name missing).toOption = extractQuery name parts := by
  rw [JwtSession.queryToken, toOption_ok_or, extractQuery]
  cases parts.query <;> rfl

/-- The token of the configured source is the bearer token, as far as the sources differ:
a bearer token is not blank, and there is none where the source is a body. -/
def SameToken (config : JwtSourcesConfig) (parts : Parts) : Prop :=
  match config.accessSource with
  | .bearer => JwtSession.bearerRest parts ≠ some []
  | .cookie name => extractCookie name parts = bearerSource parts
  | .header name => extractHeader name parts = bearerSource parts
  | .query name => extractQuery name parts = bearerSource parts
  | .body _ => bearerSource parts = none

/-- The two cases in which the extractor has rules of its own. -/
def OwnRules (config : JwtSourcesConfig) (parts : Parts) : Prop :=
  (config.accessSource = .bearer → JwtSession.bearerRest parts ≠ some []) ∧
    ∀ field, config.accessSource = .body field → bearerSource parts = none

/-- The access token agrees unless a bearer token is blank or the source is a body. -/
theorem findAccessToken_iff (session : JwtSession) :
    session.findAccessToken.toOption = session.config.accessSource.build session.parts ↔
      OwnRules session.config session.parts := by
  unfold OwnRules
  unfold JwtSession.findAccessToken
  cases session.config.accessSource with
  | bearer =>
      rw [toOption_ok_or, TokenSourceConfig.build, bearerSource_eq]
      cases hrest : JwtSession.bearerRest session.parts with
      | none => simp
      | some token =>
          rw [filter_isNonEmpty]
          cases token <;> simp
  | cookie name => simp [toOption_cookieToken, TokenSourceConfig.build]
  | header name => simp [toOption_headerToken, TokenSourceConfig.build]
  | query name => simp [toOption_queryToken, TokenSourceConfig.build]
  | body field =>
      have hnone : (Except.error accessBodyUnsupported :
          Except ErrorResponse (List Char)).toOption = none := rfl
      simp [hnone, TokenSourceConfig.build, eq_comm]

theorem sameToken_iff (config : JwtSourcesConfig) (parts : Parts) :
    SameToken config parts ↔
      OwnRules config parts ∧ bearerSource parts = config.accessSource.build parts := by
  unfold SameToken OwnRules
  cases config.accessSource with
  | bearer => simp [TokenSourceConfig.build]
  | cookie name => simp [TokenSourceConfig.build, eq_comm]
  | header name => simp [TokenSourceConfig.build, eq_comm]
  | query name => simp [TokenSourceConfig.build, eq_comm]
  | body field => simp [TokenSourceConfig.build]

/-- The refresh token agrees, unless it is a bearer token: then the access token is read. -/
theorem findRefreshToken_of_ne_body {session : JwtSession} (hbody : session.bodyRefresh = none)
    (hsource : ∀ field, session.config.refreshSource ≠ .body field) :
    session.findRefreshToken.toOption =
      if session.config.refreshSource = .bearer then session.findAccessToken.toOption
      else session.config.refreshSource.build session.parts := by
  unfold JwtSession.findRefreshToken
  rw [hbody]
  cases hrefresh : session.config.refreshSource with
  | bearer => simp
  | cookie name => simp [toOption_cookieToken, TokenSourceConfig.build]
  | header name => simp [toOption_headerToken, TokenSourceConfig.build]
  | query name => simp [toOption_queryToken, TokenSourceConfig.build]
  | body field => exact absurd hrefresh (hsource field)

/-- The layer reads the bearer token. -/
theorem token_fromService (config : JwtSourcesConfig) (parts : Parts) :
    (JwtLayer.fromService config).token parts = bearerSource parts := by
  rw [JwtLayer.token, JwtLayer.fromService, List.findSome?_singleton]

/-- **Agreement of the token sources**: the extractor and the layer read what the configured
sources yield exactly when the token of the access source is the bearer token of the request. -/
theorem sources_agree_iff (fromSlice : List UInt8 → Option Json) (config : JwtSourcesConfig)
    (parts : Parts) (body : List UInt8) :
    ((JwtSession.fromRequest fromSlice config parts body).findAccessToken.toOption =
        config.accessSource.build parts ∧
      ((∀ field, config.refreshSource ≠ .body field) →
        (JwtSession.fromRequest fromSlice config parts body).findRefreshToken.toOption =
          config.refreshSource.build parts) ∧
      (JwtLayer.fromService config).token parts = config.accessSource.build parts) ↔
      SameToken config parts := by
  let session := JwtSession.fromRequest fromSlice config parts body
  have haccess : session.findAccessToken.toOption = config.accessSource.build parts ↔
      OwnRules config parts := findAccessToken_iff session
  have hbody : (∀ field, config.refreshSource ≠ .body field) → session.bodyRefresh = none := by
    intro hsource
    cases hrefresh : config.refreshSource with
    | body field => exact absurd hrefresh (hsource field)
    | bearer => simp [session, JwtSession.fromRequest, hrefresh]
    | cookie name => simp [session, JwtSession.fromRequest, hrefresh]
    | header name => simp [session, JwtSession.fromRequest, hrefresh]
    | query name => simp [session, JwtSession.fromRequest, hrefresh]
  -- a bearer refresh token agrees once the access token and the layer do
  have hrefresh : session.findAccessToken.toOption = config.accessSource.build parts →
      bearerSource parts = config.accessSource.build parts →
      (∀ field, config.refreshSource ≠ .body field) →
      session.findRefreshToken.toOption = config.refreshSource.build parts := by
    intro hfound hlayer hsource
    rw [findRefreshToken_of_ne_body (hbody hsource) hsource, hfound, ← hlayer]
    split_ifs with hbearer
    · rw [show config.refreshSource = .bearer from hbearer]
      rfl
    · rfl
  rw [token_fromService, sameToken_iff, ← haccess]
  constructor
  · rintro ⟨hfound, -, hlayer⟩
    exact ⟨hfound, hlayer⟩
  · rintro ⟨hfound, hlayer⟩
    exact ⟨hfound, hrefresh hfound hlayer, hlayer⟩

/-- The access token is in the cookie `jwt`. -/
def cookieSources : JwtSourcesConfig := { accessSource := .cookie "jwt" }

/-- A request with the header `Cookie: jwt=t`. -/
def cookieRequest : Parts :=
  { headers := [("cookie", [106, 119, 116, 61, 116])], query := none }

/-- The configured source yields the token of the cookie, and the layer finds none. -/
theorem layer_misses_cookie :
    cookieSources.accessSource.build cookieRequest = some ['t'] ∧
      (JwtLayer.fromService cookieSources).token cookieRequest = none := by
  decide +kernel

end Modo.Sessions.Jwt
