import Modo.Auth.OAuthUrl
import Modo.Http.Browser
import Modo.Json
import Modo.Lib.Machine

/-!
# Logins with an OAuth provider

`authorize_url` sends the browser to the provider and leaves the nonce, the PKCE verifier and
the name of the provider in a signed cookie.  The callback reads that cookie, and `exchange`
posts the code only if the provider and the nonce are those of the cookie.

Below the handlers stands a browser that may have several logins under way at a time, and
callbacks that anyone may have brought about, with any code and state and among any other
cookies.  `oauth_run` says what a callback comes to in any run: it depends on the
authorization whose response the browser received last, and a token request carries the
verifier behind the challenge of the very URL whose state the callback brings.
-/

namespace Modo.OAuth

open Http

/-- `OAUTH_COOKIE_NAME`. -/
def oauthCookieName : String := "_oauth_state"

/-- `OAUTH_COOKIE_MAX_AGE_SECS`. -/
def oauthCookieMaxAgeSecs : ℕ := 300

/-- `OAuthState`. -/
structure OAuthState where
  stateNonce : List Char
  pkceVerifier : List Char
  provider : List Char

/-- `CallbackParams`. -/
structure CallbackParams where
  code : List Char
  state : List Char

/-- What is posted to a token endpoint. -/
structure TokenRequest where
  url : List Char
  form : List (List Char × List Char)

/-- The payload of the cookie. -/
def payload (state : OAuthState) : Json :=
  .object [("pkce_verifier", .string (String.ofList state.pkceVerifier)),
    ("provider", .string (String.ofList state.provider)),
    ("state", .string (String.ofList state.stateNonce))]

/-- `to_string` of the payload, whose members are in the order of their keys. -/
def payloadText (state : OAuthState) : List Char :=
  '\x7b' :: (JsonText.quoted "pkce_verifier".toList ++ ':' :: (JsonText.quoted state.pkceVerifier ++
    ',' :: (JsonText.quoted "provider".toList ++ ':' :: (JsonText.quoted state.provider ++
      ',' :: (JsonText.quoted "state".toList ++ ':' :: (JsonText.quoted state.stateNonce ++
        ['\x7d']))))))

/-- The cookie that `from_signed_cookie` collects under the name: a later one replaces an
earlier one. -/
def lastCookie (field : List Char) : Option (List Char) :=
  (field.splitOn ';').reverse.findSome? (pairValue oauthCookieName anyValue)

section Handlers

variable (opaqueBytes : Bool) (jar : SignedJar) (cookieConfig : Flash.CookieConfig)
  (sha256 : List UInt8 → List UInt8) (fromJson : List Char → Except String Json)

/-- A member of the payload that is a text. -/
def textMember (value : Json) (key : String) (message : String) : Except String (List Char) :=
  match (value.get key).bind Json.asStr with
  | some text => .ok text.toList
  | none => .error message

/-- `OAuthState::from_signed_cookie`. -/
def fromSignedCookie (cookieHeader : List Char) : Except String OAuthState :=
  match (lastCookie cookieHeader).bind jar.get with
  | none => .error "invalid or missing OAuth state cookie"
  | some verified =>
      match fromJson verified with
      | .error error => .error ("invalid OAuth state: " ++ error)
      | .ok value =>
          (textMember value "state" "missing state nonce").bind fun stateNonce =>
            (textMember value "pkce_verifier" "missing PKCE verifier").bind fun pkceVerifier =>
              (textMember value "provider" "missing provider").map fun provider =>
                ⟨stateNonce, pkceVerifier, provider⟩

/-- `OAuthState::from_request_parts`, with a key in the registry. -/
def fromRequestParts (headers : HeaderMap) : Except String OAuthState :=
  match headers.getStr "cookie" with
  | none => .error "missing OAuth state cookie"
  | some cookieHeader => fromSignedCookie jar fromJson cookieHeader

/-- The state that `build_oauth_cookie` makes from the bytes it draws. -/
def newState (provider : List Char) (nonceBytes verifierBytes : List UInt8) : OAuthState where
  stateNonce := Base64url.encode nonceBytes
  pkceVerifier := Base64url.encode verifierBytes
  provider := provider

/-- The header that `build_oauth_cookie` returns. -/
def setCookieHeader (state : OAuthState) : List Char :=
  oauthCookieName.toList ++ '=' :: (jar.add (payloadText state) ++
    Flash.attributes cookieConfig.httpOnly cookieConfig.secure cookieConfig.sameSiteOf
      oauthCookieMaxAgeSecs)

/-- `AuthorizationRequest::into_response`: the fields of the redirect. -/
def redirectHeaders (url : List Char) (setCookie : List Char) : HeaderMap :=
  ("location", ofText url) ::
    match fromStr opaqueBytes setCookie with
    | some value => [("set-cookie", value)]
    | none => []

/-- `exchange`, up to the token request. -/
def tokenRequest (provider : OAuthProvider) (config : OAuthProviderConfig)
    (params : CallbackParams) (state : OAuthState) : Except String TokenRequest :=
  if state.provider ≠ provider.name then .error "OAuth state provider mismatch"
  else if params.state ≠ state.stateNonce then .error "OAuth state nonce mismatch"
  else .ok ⟨provider.tokenUrl, provider.tokenForm config params.code state.pkceVerifier⟩

/-- The route of the callback, up to the token request. -/
def callback (headers : HeaderMap) (provider : OAuthProvider) (config : OAuthProviderConfig)
    (params : CallbackParams) : Except String TokenRequest :=
  (fromRequestParts jar fromJson headers).bind (tokenRequest provider config params)

end Handlers

/-! ## A browser with logins under way -/

/-- A call of `authorize_url`. -/
structure Authorization where
  provider : OAuthProvider
  config : OAuthProviderConfig
  state : OAuthState

/-- A request to a callback route, with the authorization of the browser at that time. -/
structure Callback where
  provider : OAuthProvider
  config : OAuthProviderConfig
  params : CallbackParams
  headers : HeaderMap
  /-- The authorization whose response was received last. -/
  held : Option Authorization
  others : List HeaderValue

structure World where
  cookie : Option HeaderValue
  /-- The authorization that the cookie is of. -/
  held : Option Authorization
  responses : List (Authorization × HeaderMap)
  callbacks : List Callback
  issued : List Authorization
  answered : List (Callback × Except String TokenRequest)

inductive Action where
  | authorize (provider : OAuthProvider) (config : OAuthProviderConfig)
      (nonceBytes verifierBytes : List UInt8)
  /-- The response of an authorization arrives. -/
  | receive (index : ℕ)
  /-- The browser is sent to a callback route, by a provider or by anyone else, and sends its
  cookies. -/
  | callback (provider : OAuthProvider) (config : OAuthProviderConfig) (params : CallbackParams)
      (others : List HeaderValue)
  /-- The server answers a callback. -/
  | answer (index : ℕ)
  /-- The cookie expires or is deleted. -/
  | forget

/-- Nothing has happened. -/
def World.new : World := ⟨none, none, [], [], [], []⟩

section Protocol

variable (opaqueBytes : Bool) (jar : SignedJar) (cookieConfig : Flash.CookieConfig)
  (sha256 : List UInt8 → List UInt8) (fromJson : List Char → Except String Json)

/-- The query of the URL that the browser is sent to. -/
def Authorization.query (authorization : Authorization) : List Char :=
  authorizeQuery authorization.provider authorization.config authorization.state.stateNonce
    (pkceChallenge sha256 authorization.state.pkceVerifier)

/-- The fields of its response. -/
def Authorization.headers (authorization : Authorization) : HeaderMap :=
  redirectHeaders opaqueBytes
    (redirectUrl authorization.provider authorization.config authorization.state.stateNonce
      (pkceChallenge sha256 authorization.state.pkceVerifier))
    (setCookieHeader jar cookieConfig authorization.state)

/-- The scanner that the other middlewares would use for the name. -/
abbrev scanner : Scanner := .csrf oauthCookieName

def step (world : World) : Action → Option World
  | .authorize provider config nonceBytes verifierBytes =>
      let authorization := ⟨provider, config, newState provider.name nonceBytes verifierBytes⟩
      some { world with
        responses := world.responses ++
          [(authorization, authorization.headers opaqueBytes jar cookieConfig sha256)]
        issued := world.issued ++ [authorization] }
  | .receive index =>
      (world.responses[index]?).map fun response =>
        { world with
          responses := world.responses.eraseIdx index
          cookie := storeAll oauthCookieName world.cookie response.2
          held := some response.1 }
  | .callback provider config params others =>
      some { world with
        callbacks := world.callbacks ++
          [⟨provider, config, params, requestFields oauthCookieName others world.cookie [],
            world.held, others⟩] }
  | .answer index =>
      (world.callbacks[index]?).map fun request =>
        { world with
          callbacks := world.callbacks.eraseIdx index
          answered := world.answered ++
            [(request, callback jar fromJson request.headers request.provider request.config
              request.params)] }
  | .forget => some { world with cookie := none, held := none }

end Protocol

/-- The state of the authorization that the browser holds, or what its cookies lack. -/
def heldState (held : Option Authorization) (others : List HeaderValue) :
    Except String OAuthState :=
  -- one cookie that is no text makes the whole field unreadable
  if isText others = false then .error "missing OAuth state cookie"
  else
    match held with
    | some authorization => .ok authorization.state
    | none =>
        if others.isEmpty then .error "missing OAuth state cookie"
        else .error "invalid or missing OAuth state cookie"

/-- What a callback comes to: nothing of it is about texts of cookies any more. -/
def expected (request : Callback) : Except String TokenRequest :=
  (heldState request.held request.others).bind
    (tokenRequest request.provider request.config request.params)

/-! ## The cookie of an authorization -/

/-- The texts of a state, as far as the cookie carries them. -/
structure OAuthState.Plain (state : OAuthState) : Prop where
  stateNonce : ∀ c ∈ state.stateNonce, isCookieChar c = true
  pkceVerifier : ∀ c ∈ state.pkceVerifier, isCookieChar c = true
  provider : ∀ c ∈ state.provider, isCookieChar c = true

theorem isCookieChar_encode (bytes : List UInt8) :
    ∀ c ∈ Base64url.encode bytes, isCookieChar c = true := by
  have halphabet : ∀ c ∈ Base64url.alphabet, isCookieChar c = true := by decide +kernel
  have hall := (Base64url.decode_isOk_iff (Base64url.encode bytes)).mp
    (by rw [Base64url.decode_encode]; rfl)
  exact fun c hc => halphabet c ((Base64url.isDigit_iff c).mp (hall c hc))

theorem plain_newState {provider : List Char} (hprovider : ∀ c ∈ provider, isCookieChar c = true)
    (nonceBytes verifierBytes : List UInt8) :
    (newState provider nonceBytes verifierBytes).Plain where
  stateNonce := isCookieChar_encode nonceBytes
  pkceVerifier := isCookieChar_encode verifierBytes
  provider := hprovider

theorem isCookieChar_quoted {text : List Char} (htext : ∀ c ∈ text, isCookieChar c = true) :
    ∀ c ∈ JsonText.quoted text, isCookieChar c = true := by
  have hescapes : ∀ c ∈ JsonText.escapeAlphabet, isCookieChar c = true := by decide +kernel
  intro c hc
  rcases JsonText.mem_quoted hc with ⟨hc, -⟩ | hc
  · exact htext c hc
  · exact hescapes c hc

theorem isCookieChar_payloadText {state : OAuthState} (hstate : state.Plain) :
    ∀ c ∈ payloadText state, isCookieChar c = true := by
  have hkeys : ∀ key ∈ ["pkce_verifier", "provider", "state"],
      ∀ c ∈ JsonText.quoted key.toList, isCookieChar c = true := by decide +kernel
  intro c hc
  simp only [payloadText, List.mem_cons, List.mem_append, List.not_mem_nil, or_false] at hc
  rcases hc with rfl | hc | rfl | hc | rfl | hc | rfl | hc | rfl | hc | rfl | hc | rfl
  · decide
  · exact hkeys "pkce_verifier" (by simp) c hc
  · decide
  · exact isCookieChar_quoted hstate.pkceVerifier c hc
  · decide
  · exact hkeys "provider" (by simp) c hc
  · decide
  · exact isCookieChar_quoted hstate.provider c hc
  · decide
  · exact hkeys "state" (by simp) c hc
  · decide
  · exact isCookieChar_quoted hstate.stateNonce c hc
  · decide

theorem isCookieName_oauth : IsCookieName oauthCookieName.toList :=
  ⟨by decide +kernel, by decide +kernel⟩

/-! ## The last cookie of the name -/

theorem lastCookie_append (first second : List Char) :
    lastCookie (first ++ "; ".toList ++ second) = (lastCookie second).or (lastCookie first) := by
  have hjoin : first ++ "; ".toList ++ second = first ++ ';' :: ' ' :: second := by simp
  obtain ⟨part, rest, hsplit⟩ := List.exists_cons_of_ne_nil (List.splitOn_ne_nil ';' second)
  rw [lastCookie, hjoin, List.splitOn_append_cons_self, List.reverse_append, List.findSome?_append,
    List.splitOn_cons_eq_if_modifyHead, if_neg (by decide), hsplit, List.modifyHead_cons,
    List.reverse_cons, List.findSome?_append, List.findSome?_singleton, pairValue_cons_space,
    lastCookie, hsplit, List.reverse_cons, List.findSome?_append, List.findSome?_singleton,
    lastCookie]

/-- A field without the cookie. -/
theorem lastCookie_eq_none {field : List Char}
    (hfield : findCookie oauthCookieName anyValue field = none) : lastCookie field = none := by
  rw [findCookie, List.findSome?_eq_none_iff] at hfield
  rw [lastCookie, List.findSome?_eq_none_iff]
  exact fun part hpart => hfield part (List.mem_reverse.mp hpart)

theorem lastCookie_plain {value : List Char} (hvalue : ∀ c ∈ value, isCookieChar c = true) :
    lastCookie (oauthCookieName.toList ++ '=' :: value) = some value := by
  have hfind : findCookie oauthCookieName anyValue (oauthCookieName.toList ++ '=' :: value) =
      some value := findCookie_plain isCookieName_oauth hvalue rfl
  have hsemicolon : ';' ∉ oauthCookieName.toList ++ '=' :: value := by
    intro hmem
    rcases List.mem_append.mp hmem with hmem | hmem
    · exact absurd hmem (by decide +kernel)
    · rcases List.mem_cons.mp hmem with heq | hmem
      · exact absurd heq (by decide)
      · exact absurd (hvalue ';' hmem) (by decide)
  rw [findCookie, List.splitOn_eq_singleton hsemicolon] at hfind
  rw [lastCookie, List.splitOn_eq_singleton hsemicolon]
  exact hfind

/-- Other cookies in front of a last one do not count. -/
theorem lastCookie_intercalate {others : List (List Char)}
    (hothers : ∀ pair ∈ others, lastCookie pair = none) (last : List Char) :
    lastCookie ("; ".toList.intercalate (others ++ [last])) = lastCookie last := by
  induction others with
  | nil => simp
  | cons first rest ih =>
      obtain ⟨second, tail, htail⟩ := List.exists_cons_of_ne_nil
        (List.append_ne_nil_of_right_ne_nil rest (List.cons_ne_nil last []))
      have ih := ih fun pair hpair => hothers pair (List.mem_cons_of_mem first hpair)
      rw [List.cons_append, htail, List.intercalate_cons_cons, lastCookie_append, ← htail, ih,
        hothers first List.mem_cons_self, Option.or_none]

/-! ## What a callback reads -/

section Reading

variable {opaqueBytes : Bool} {jar : SignedJar} {cookieConfig : Flash.CookieConfig}
  {sha256 : List UInt8 → List UInt8} {fromJson : List Char → Except String Json}

/-- The value that a browser stores for an authorization. -/
def storedValue (jar : SignedJar) (authorization : Authorization) : HeaderValue :=
  ofText (jar.add (payloadText authorization.state))

theorem fromSignedCookie_eq {field value : List Char} {state : OAuthState}
    (hjson : fromJson (payloadText state) = .ok (payload state))
    (hfield : lastCookie field = some value)
    (hvalue : jar.get value = some (payloadText state)) :
    fromSignedCookie jar fromJson field = .ok state := by
  rw [fromSignedCookie, hfield, Option.bind_some, hvalue]
  simp only [hjson]
  have hnonce : (payload state).get "state" = some (.string (String.ofList state.stateNonce)) := rfl
  have hverifier : (payload state).get "pkce_verifier" =
      some (.string (String.ofList state.pkceVerifier)) := rfl
  have hprovider : (payload state).get "provider" =
      some (.string (String.ofList state.provider)) := rfl
  simp only [textMember, hnonce, hverifier, hprovider, Option.bind_some, Json.asStr,
    String.toList_ofList]
  rfl

/-- The text of another cookie. -/
theorem lastCookie_asText {others : List HeaderValue}
    (hnone : (others.findSome? scanner.ofPair).isNone = true) :
    ∀ pair ∈ others.map asText, lastCookie pair = none := by
  rw [Option.isNone_iff_eq_none, List.findSome?_eq_none_iff] at hnone
  intro pair hpair
  obtain ⟨other, hother, rfl⟩ := List.mem_map.mp hpair
  exact lastCookie_eq_none (hnone other hother)

/-- Among other cookies that are texts, a request carries the state of the authorization that
the browser holds. -/
theorem fromRequestParts_of_isText (hjar : jar.Signs) {others : List HeaderValue}
    (hothers : isText others = true)
    (hnone : (others.findSome? scanner.ofPair).isNone = true) (held : Option Authorization)
    (hplain : ∀ authorization ∈ held, authorization.state.Plain)
    (hjson : ∀ authorization ∈ held,
      fromJson (payloadText authorization.state) = .ok (payload authorization.state)) :
    fromRequestParts jar fromJson
        (requestFields oauthCookieName others (held.map (storedValue jar)) []) =
      heldState held others := by
  unfold heldState
  rw [if_neg (by rw [hothers]; exact Bool.true_eq_false.mp)]
  cases held with
  | none =>
      rw [Option.map_none, requestFields, Option.toList_none, List.map_nil, List.append_nil]
      cases others with
      | nil => rfl
      | cons first rest =>
          have hfield :
              lastCookie ("; ".toList.intercalate ((first :: rest).map asText)) = none := by
            have hall := lastCookie_asText hnone
            obtain ⟨front, last, hsplit⟩ :=
              (List.eq_nil_or_concat' ((first :: rest).map asText)).resolve_left (by simp)
            rw [hsplit] at hall ⊢
            rw [lastCookie_intercalate fun pair hpair => hall pair (List.mem_append_left _ hpair)]
            exact hall last (List.mem_append_right _ (List.mem_singleton_self last))
          simp only [fromRequestParts, getStr_fieldOf hothers, fromSignedCookie, hfield,
            Option.bind_none]
          rfl
  | some authorization =>
      have hsigned := (storeField_signed true hjar isCookieName_oauth
        (isCookieChar_payloadText (hplain authorization rfl)) true true .lax 0).1
      have hvisible := visible_pair isCookieName_oauth hsigned
      obtain ⟨first, rest, hpairs⟩ := List.exists_cons_of_ne_nil
        (List.append_ne_nil_of_right_ne_nil others
          (List.cons_ne_nil (storedCookie oauthCookieName (storedValue jar authorization)) []))
      have htext : isText (first :: rest) = true := by
        rw [← hpairs, isText_append, hothers, Bool.true_and, storedValue, storedCookie_ofText,
          isText, List.all_cons, isText_ofText hvisible]
        rfl
      have hfield : lastCookie ("; ".toList.intercalate ((first :: rest).map asText)) =
          some (jar.add (payloadText authorization.state)) := by
        rw [← hpairs, List.map_append, List.map_singleton,
          lastCookie_intercalate (lastCookie_asText hnone), storedValue, storedCookie_ofText,
          asText_ofText hvisible, lastCookie_plain hsigned]
      rw [Option.map_some, requestFields, Option.toList_some, List.map_singleton, hpairs]
      simp only [fromRequestParts, getStr_fieldOf htext]
      exact fromSignedCookie_eq (hjson authorization rfl) hfield (hjar.get_add _)

/-- A request carries the state of the authorization that the browser holds, unless another
cookie is no text. -/
theorem fromRequestParts_requestFields (hjar : jar.Signs) {others : List HeaderValue}
    (hnone : (others.findSome? scanner.ofPair).isNone = true) (held : Option Authorization)
    (hplain : ∀ authorization ∈ held, authorization.state.Plain)
    (hjson : ∀ authorization ∈ held,
      fromJson (payloadText authorization.state) = .ok (payload authorization.state)) :
    fromRequestParts jar fromJson
        (requestFields oauthCookieName others (held.map (storedValue jar)) []) =
      heldState held others := by
  cases hothers : isText others with
  | true => exact fromRequestParts_of_isText hjar hothers hnone held hplain hjson
  | false =>
      obtain ⟨first, rest, rfl⟩ : ∃ first rest, others = first :: rest := by
        cases others with
        | nil => cases hothers
        | cons first rest => exact ⟨first, rest, rfl⟩
      have htext : isText (first ::
          (rest ++ (held.map (storedValue jar)).toList.map (storedCookie oauthCookieName))) =
          false := by
        rw [← List.cons_append, isText_append, hothers, Bool.false_and]
      unfold heldState
      rw [if_pos hothers, requestFields, List.cons_append, fromRequestParts]
      simp only [getStr_fieldOf_eq_none htext]

/-- The response of an authorization leaves its cookie. -/
theorem storeAll_headers (hjar : jar.Signs) {authorization : Authorization}
    (hplain : authorization.state.Plain) (stored : Option HeaderValue) :
    storeAll oauthCookieName stored
        (authorization.headers opaqueBytes jar cookieConfig sha256) =
      some (storedValue jar authorization) := by
  obtain ⟨-, field, hfield, hstore⟩ := storeField_signed opaqueBytes hjar isCookieName_oauth
    (isCookieChar_payloadText hplain) cookieConfig.httpOnly cookieConfig.secure
    cookieConfig.sameSiteOf oauthCookieMaxAgeSecs
  rw [Authorization.headers, redirectHeaders, setCookieHeader, hfield]
  exact hstore stored

end Reading

/-! ## Runs -/

section Runs

variable {opaqueBytes : Bool} {jar : SignedJar} {cookieConfig : Flash.CookieConfig}
  {sha256 : List UInt8 → List UInt8} {fromJson : List Char → Except String Json}

/-- The authorization was issued, and the cookie carries its texts. -/
structure Known (fromJson : List Char → Except String Json) (issued : List Authorization)
    (authorization : Authorization) : Prop where
  mem : authorization ∈ issued
  plain : authorization.state.Plain
  json : fromJson (payloadText authorization.state) = .ok (payload authorization.state)
  provider : authorization.state.provider = authorization.provider.name

/-- What the browser holds and sends is of the authorizations that were issued. -/
structure Tracks (jar : SignedJar) (fromJson : List Char → Except String Json) (world : World) :
    Prop where
  cookie : world.cookie = world.held.map (storedValue jar)
  held : ∀ authorization ∈ world.held, Known fromJson world.issued authorization
  responses : ∀ response ∈ world.responses, Known fromJson world.issued response.1 ∧
    ∀ stored, storeAll oauthCookieName stored response.2 = some (storedValue jar response.1)
  callbacks : ∀ request ∈ world.callbacks,
    (∀ authorization ∈ request.held, Known fromJson world.issued authorization) ∧
      callback jar fromJson request.headers request.provider request.config request.params =
        expected request
  answered : ∀ answered ∈ world.answered,
    (∀ authorization ∈ answered.1.held, Known fromJson world.issued authorization) ∧
      answered.2 = expected answered.1

theorem Known.append {issued : List Authorization} {authorization : Authorization}
    (hknown : Known fromJson issued authorization) (more : List Authorization) :
    Known fromJson (issued ++ more) authorization :=
  ⟨List.mem_append_left more hknown.mem, hknown.plain, hknown.json, hknown.provider⟩

/-- The provider of an authorization has a plain name, and its payload is read as it was
written.  The other cookies of a callback have other names. -/
def Readable (fromJson : List Char → Except String Json) : Action → Prop
  | .authorize provider _ nonceBytes verifierBytes =>
      (∀ c ∈ provider.name, isCookieChar c = true) ∧
        fromJson (payloadText (newState provider.name nonceBytes verifierBytes)) =
          .ok (payload (newState provider.name nonceBytes verifierBytes))
  | .callback _ _ _ others => (others.findSome? scanner.ofPair).isNone = true
  | _ => True

theorem plain_google : ∀ c ∈ google.name, isCookieChar c = true := by decide +kernel

theorem plain_github : ∀ c ∈ github.name, isCookieChar c = true := by decide +kernel

theorem step_tracks (hjar : jar.Signs) {world next : World} {action : Action}
    (htracks : Tracks jar fromJson world) (hreadable : Readable fromJson action)
    (hstep : step opaqueBytes jar cookieConfig sha256 fromJson world action = some next) :
    Tracks jar fromJson next := by
  cases action with
  | authorize provider config nonceBytes verifierBytes =>
      rw [step, Option.some.injEq] at hstep
      subst hstep
      have hnew : Known fromJson (world.issued ++ [⟨provider, config,
          newState provider.name nonceBytes verifierBytes⟩])
          ⟨provider, config, newState provider.name nonceBytes verifierBytes⟩ :=
        ⟨List.mem_append_right _ (List.mem_singleton_self _), plain_newState hreadable.1 _ _,
          hreadable.2, rfl⟩
      constructor
      · exact htracks.cookie
      · exact fun authorization hheld => (htracks.held authorization hheld).append _
      · intro response hresponse
        rcases List.mem_append.mp hresponse with hresponse | hresponse
        · obtain ⟨hknown, hstore⟩ := htracks.responses response hresponse
          exact ⟨hknown.append _, hstore⟩
        · rw [List.mem_singleton.mp hresponse]
          exact ⟨hnew, fun stored => storeAll_headers hjar hnew.plain stored⟩
      · intro request hrequest
        obtain ⟨hknown, heq⟩ := htracks.callbacks request hrequest
        exact ⟨fun authorization hheld => (hknown authorization hheld).append _, heq⟩
      · intro answered hanswered
        obtain ⟨hknown, heq⟩ := htracks.answered answered hanswered
        exact ⟨fun authorization hheld => (hknown authorization hheld).append _, heq⟩
  | receive index =>
      obtain ⟨response, hresponse, rfl⟩ := Option.map_eq_some_iff.mp hstep
      obtain ⟨hknown, hstore⟩ := htracks.responses response (List.mem_of_getElem? hresponse)
      constructor
      · exact hstore world.cookie
      · rintro authorization ⟨⟩
        exact hknown
      · exact fun other hother => htracks.responses other (List.mem_of_mem_eraseIdx hother)
      · exact htracks.callbacks
      · exact htracks.answered
  | callback provider config params others =>
      rw [step, Option.some.injEq] at hstep
      subst hstep
      refine ⟨htracks.cookie, htracks.held, htracks.responses, ?_, htracks.answered⟩
      intro request hrequest
      rcases List.mem_append.mp hrequest with hrequest | hrequest
      · exact htracks.callbacks request hrequest
      · rw [List.mem_singleton.mp hrequest]
        refine ⟨htracks.held, ?_⟩
        have hread := fromRequestParts_requestFields hjar hreadable world.held
          (fun authorization hheld => (htracks.held authorization hheld).plain)
          fun authorization hheld => (htracks.held authorization hheld).json
        rw [← htracks.cookie] at hread
        rw [OAuth.callback, hread]
        rfl
  | answer index =>
      obtain ⟨request, hrequest, rfl⟩ := Option.map_eq_some_iff.mp hstep
      refine ⟨htracks.cookie, htracks.held, htracks.responses, ?_, ?_⟩
      · exact fun other hother => htracks.callbacks other (List.mem_of_mem_eraseIdx hother)
      · intro answered hanswered
        rcases List.mem_append.mp hanswered with hanswered | hanswered
        · exact htracks.answered answered hanswered
        · rw [List.mem_singleton.mp hanswered]
          exact htracks.callbacks request (List.mem_of_getElem? hrequest)
  | forget =>
      rw [step, Option.some.injEq] at hstep
      subst hstep
      exact ⟨rfl, fun _ hheld => (nomatch hheld), htracks.responses, htracks.callbacks,
        htracks.answered⟩

theorem tracks_new : Tracks jar fromJson World.new where
  cookie := rfl
  held := fun _ hheld => nomatch hheld
  responses := fun _ hresponse => nomatch hresponse
  callbacks := fun _ hrequest => nomatch hrequest
  answered := fun _ hanswered => nomatch hanswered

/-- A token request is for the state that the callback brings. -/
theorem tokenRequest_eq_ok {provider : OAuthProvider} {config : OAuthProviderConfig}
    {params : CallbackParams} {state : OAuthState} {request : TokenRequest}
    (hrequest : tokenRequest provider config params state = .ok request) :
    state.provider = provider.name ∧ params.state = state.stateNonce ∧
      request = ⟨provider.tokenUrl, provider.tokenForm config params.code state.pkceVerifier⟩ := by
  unfold tokenRequest at hrequest
  split at hrequest
  · cases hrequest
  · rename_i hprovider
    split at hrequest
    · cases hrequest
    · rename_i hnonce
      exact ⟨not_not.mp hprovider, not_not.mp hnonce, (Except.ok.inj hrequest).symm⟩

theorem lookup_authorizeParams (sha256 : List UInt8 → List UInt8) (authorization : Authorization) :
    (readQuery (authorization.query sha256)).lookup (Storage.asBytes "state".toList) =
        some (Storage.asBytes authorization.state.stateNonce) ∧
      (readQuery (authorization.query sha256)).lookup (Storage.asBytes "code_challenge".toList) =
        some (Storage.asBytes (pkceChallenge sha256 authorization.state.pkceVerifier)) := by
  rw [Authorization.query, readQuery_authorizeQuery]
  exact ⟨rfl, rfl⟩

/-- **Logins**: a callback is answered as the authorization says whose response the browser
received last.  If a code is posted, it is posted to the endpoint of that authorization's
provider, the state that came back is the one in its URL, and the verifier is the one behind
the challenge in its URL. -/
theorem oauth_run (hjar : jar.Signs) {final : World} {actions : List Action}
    (hreadable : ∀ action ∈ actions, Readable fromJson action)
    (hrun : Machine.run (step opaqueBytes jar cookieConfig sha256 fromJson) World.new actions =
      some final) :
    ∀ answered ∈ final.answered, answered.2 = expected answered.1 ∧
      ∀ request, answered.2 = .ok request →
        ∃ authorization ∈ final.issued, answered.1.held = some authorization ∧
          authorization.provider.name = answered.1.provider.name ∧
          request.url = answered.1.provider.tokenUrl ∧
          request.form = answered.1.provider.tokenForm answered.1.config answered.1.params.code
            authorization.state.pkceVerifier ∧
          (readQuery (authorization.query sha256)).lookup (Storage.asBytes "state".toList) =
            some (Storage.asBytes answered.1.params.state) ∧
          (readQuery (authorization.query sha256)).lookup
              (Storage.asBytes "code_challenge".toList) =
            some (Storage.asBytes (pkceChallenge sha256 authorization.state.pkceVerifier)) := by
  have htracks : Tracks jar fromJson final :=
    Machine.run_invariant_of_allowed (Tracks jar fromJson)
      (fun _ action => Readable fromJson action)
      (fun _ _ _ => step_tracks hjar) tracks_new
      (fun _ action _ htaken => hreadable action htaken.mem) hrun
  intro answered hanswered
  obtain ⟨hknown, heq⟩ := htracks.answered answered hanswered
  refine ⟨heq, ?_⟩
  intro request hrequest
  rw [heq, expected] at hrequest
  cases hheld : answered.1.held with
  | none =>
      rw [hheld, heldState] at hrequest
      split at hrequest
      · cases hrequest
      · split at hrequest <;> cases hrequest
  | some authorization =>
      rw [hheld, heldState] at hrequest
      split at hrequest
      · cases hrequest
      obtain ⟨hprovider, hnonce, rfl⟩ := tokenRequest_eq_ok hrequest
      obtain ⟨hmem, -, -, hname⟩ := hknown authorization hheld
      obtain ⟨hstate, hchallenge⟩ := lookup_authorizeParams sha256 authorization
      exact ⟨authorization, hmem, rfl, hname.symm.trans hprovider, rfl, rfl, hnonce ▸ hstate,
        hchallenge⟩

end Runs

/-- A login at one provider and another one that overtakes it. -/
def firstState : OAuthState := newState google.name [0, 1, 2] [3, 4, 5]

def secondState : OAuthState := newState github.name [6, 7, 8] [9, 10, 11]

/-- A reader that knows two states. -/
def readTwo (text : List Char) : Except String Json :=
  if text = payloadText firstState then .ok (payload firstState)
  else if text = payloadText secondState then .ok (payload secondState)
  else .error "expected value"

def appConfig : OAuthProviderConfig where
  clientId := "a b".toList
  clientSecret := "s".toList
  redirectUri := "https://example.com/callback".toList
  scopes := []

/-- Two logins, and the callbacks of both. -/
def loginActions : List Action :=
  [.authorize google appConfig [0, 1, 2] [3, 4, 5],
    .authorize github appConfig [6, 7, 8] [9, 10, 11], .receive 0,
    .callback google appConfig ⟨"c".toList, firstState.stateNonce⟩ [ofText "theme=dark".toList],
    .callback google appConfig ⟨"c".toList, firstState.stateNonce⟩ [ofText "theme=é".toList],
    .receive 0,
    .callback github appConfig ⟨"d".toList, secondState.stateNonce⟩ [],
    .callback google appConfig ⟨"e".toList, firstState.stateNonce⟩ [], .answer 1, .answer 2,
    .answer 0, .answer 0]

theorem oauth_run_two :
    ∃ final, Machine.run (step true Flash.flatJar Flash.laxConfig id readTwo) World.new
        loginActions = some final ∧
      ∀ answered ∈ final.answered, answered.2 = expected answered.1 ∧
        ∀ request, answered.2 = .ok request →
          ∃ authorization ∈ final.issued, answered.1.held = some authorization ∧
            authorization.provider.name = answered.1.provider.name ∧
            request.url = answered.1.provider.tokenUrl ∧
            request.form = answered.1.provider.tokenForm answered.1.config answered.1.params.code
              authorization.state.pkceVerifier ∧
            (readQuery (authorization.query id)).lookup (Storage.asBytes "state".toList) =
              some (Storage.asBytes answered.1.params.state) ∧
            (readQuery (authorization.query id)).lookup
                (Storage.asBytes "code_challenge".toList) =
              some (Storage.asBytes (pkceChallenge id authorization.state.pkceVerifier)) := by
  have hplayed : (Machine.run (step true Flash.flatJar Flash.laxConfig id readTwo) World.new
      loginActions).isSome = true := by decide +kernel
  obtain ⟨final, hrun⟩ := Option.isSome_iff_exists.mp hplayed
  have hreadable : ∀ action ∈ loginActions, Readable readTwo action := by
    have hsecond : readTwo (payloadText secondState) = .ok (payload secondState) := by
      decide +kernel
    simp only [loginActions, List.forall_mem_cons, List.not_mem_nil, false_imp_iff, implies_true,
      and_true, Readable]
    exact ⟨⟨plain_google, if_pos rfl⟩, ⟨plain_github, hsecond⟩, trivial, by decide +kernel,
      by decide +kernel, trivial, rfl, rfl⟩
  exact ⟨final, hrun, oauth_run Flash.flatJar_signs hreadable hrun⟩

end Modo.OAuth
