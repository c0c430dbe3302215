import Modo.Encoding.Base64url
import Modo.Storage.Encoding

/-!
# The authorization URL

`Google` and `GitHub` write the same URL, each below its own endpoint and with its own
scopes.  Read as a form, as an authorization server does, its query gives back the client,
the redirect URI, the scopes, the state and the challenge as they were
(`readQuery_authorizeQuery`).
-/

namespace Modo.OAuth

open WebUrl (percentDecode)

/-- `OAuthProviderConfig`. -/
structure OAuthProviderConfig where
  clientId : List Char
  clientSecret : List Char
  redirectUri : List Char
  scopes : List (List Char)

/-- What differs between the providers; `tokenForm` takes the code and the verifier. -/
structure OAuthProvider where
  name : List Char
  authorizeUrl : List Char
  tokenUrl : List Char
  defaultScopes : List (List Char)
  tokenForm : OAuthProviderConfig → List Char → List Char → List (List Char × List Char)

/-- `Google`. -/
def google : OAuthProvider where
  name := "google".toList
  authorizeUrl := "https://accounts.google.com/o/oauth2/v2/auth".toList
  tokenUrl := "https://oauth2.googleapis.com/token".toList
  defaultScopes := ["openid".toList, "email".toList, "profile".toList]
  tokenForm config code verifier :=
    [("grant_type".toList, "authorization_code".toList), ("code".toList, code),
      ("redirect_uri".toList, config.redirectUri), ("client_id".toList, config.clientId),
      ("client_secret".toList, config.clientSecret), ("code_verifier".toList, verifier)]

/-- `GitHub`. -/
def github : OAuthProvider where
  name := "github".toList
  authorizeUrl := "https://github.com/login/oauth/authorize".toList
  tokenUrl := "https://github.com/login/oauth/access_token".toList
  defaultScopes := ["user:email".toList, "read:user".toList]
  tokenForm config code verifier :=
    [("client_id".toList, config.clientId), ("client_secret".toList, config.clientSecret),
      ("code".toList, code), ("redirect_uri".toList, config.redirectUri),
      ("code_verifier".toList, verifier)]

/-- `scopes`. -/
def OAuthProvider.scopes (provider : OAuthProvider) (config : OAuthProviderConfig) : List Char :=
  if config.scopes.isEmpty then [' '].intercalate provider.defaultScopes
  else [' '].intercalate config.scopes

/-- `urlencoding::encode`: all bytes but the unreserved ones are escaped. -/
def urlencode (text : List Char) : List Char := Storage.uriEncode text true

/-- `pkce_challenge`, with SHA-256 as a parameter. -/
def pkceChallenge (sha256 : List UInt8 → List UInt8) (verifier : List Char) : List Char :=
  Base64url.encode (sha256 (Storage.asBytes verifier))

/-- The query of the URL. -/
def authorizeQuery (provider : OAuthProvider) (config : OAuthProviderConfig)
    (stateNonce challenge : List Char) : List Char :=
  "response_type=code&client_id=".toList ++ urlencode config.clientId ++
    "&redirect_uri=".toList ++ urlencode config.redirectUri ++
    "&scope=".toList ++ urlencode (provider.scopes config) ++
    "&state=".toList ++ urlencode stateNonce ++
    "&code_challenge=".toList ++ urlencode challenge ++
    "&code_challenge_method=S256".toList

/-- The URL of `authorize_url`. -/
def redirectUrl (provider : OAuthProvider) (config : OAuthProviderConfig)
    (stateNonce challenge : List Char) : List Char :=
  provider.authorizeUrl ++ '?' :: authorizeQuery provider config stateNonce challenge

/-! ## Reading a form -/

/-- One name or value of a form. -/
def decodeField (text : List Char) : List UInt8 :=
  percentDecode (text.map fun c => if c = '+' then ' ' else c)

/-- The pairs of a query, read as a form. -/
def readQuery (query : List Char) : List (List UInt8 × List UInt8) :=
  (query.splitOn '&').filterMap fun pair =>
    (Utf8.splitOnce '=' pair).map fun halves => (decodeField halves.1, decodeField halves.2)

/-- A pair that is written with its value encoded. -/
def writePair (pair : List Char × List Char) : List Char := pair.1 ++ '=' :: urlencode pair.2

/-- The characters of a name that stand for themselves. -/
def isNameChar (c : Char) : Bool := c.isAlphanum || c == '_'

theorem isNameChar_spec {c : Char} (hc : isNameChar c = true) :
    c ≠ '&' ∧ c ≠ '=' ∧ c ≠ '+' ∧ c ≠ '%' := by
  refine ⟨?_, ?_, ?_, ?_⟩
  all_goals
    rintro rfl
    exact absurd hc (by decide)

theorem isEncoded_chars {text : List Char} (htext : Storage.IsEncoded true text) :
    '&' ∉ text ∧ '+' ∉ text := by
  have hunreserved : ∀ {c : Char}, Storage.isUnreservedChar c = true → c ≠ '&' ∧ c ≠ '+' := by
    intro c hc
    constructor
    · rintro rfl
      exact absurd hc (by decide)
    · rintro rfl
      exact absurd hc (by decide)
  have hhex : ∀ {c : Char}, Storage.isUpperHex c = true → c ≠ '&' ∧ c ≠ '+' := by
    intro c hc
    constructor
    · rintro rfl
      exact absurd hc (by decide)
    · rintro rfl
      exact absurd hc (by decide)
  induction htext with
  | nil => exact ⟨List.not_mem_nil, List.not_mem_nil⟩
  | unreserved hc _ ih =>
      obtain ⟨hand, hplus⟩ := hunreserved hc
      exact ⟨fun hmem => (List.mem_cons.mp hmem).elim (fun heq => hand heq.symm) ih.1,
        fun hmem => (List.mem_cons.mp hmem).elim (fun heq => hplus heq.symm) ih.2⟩
  | slash hslash _ _ => cases hslash
  | escape hfirst hsecond _ ih =>
      obtain ⟨hfirstAnd, hfirstPlus⟩ := hhex hfirst
      obtain ⟨hsecondAnd, hsecondPlus⟩ := hhex hsecond
      constructor
      · simp only [List.mem_cons, not_or]
        exact ⟨by decide, hfirstAnd.symm, hsecondAnd.symm, ih.1⟩
      · simp only [List.mem_cons, not_or]
        exact ⟨by decide, hfirstPlus.symm, hsecondPlus.symm, ih.2⟩

theorem urlencode_chars (text : List Char) : '&' ∉ urlencode text ∧ '+' ∉ urlencode text :=
  isEncoded_chars (Storage.isEncoded_encodeBytes true (Storage.asBytes text))

theorem map_plus_eq_self {text : List Char} (hplus : '+' ∉ text) :
    (text.map fun c => if c = '+' then ' ' else c) = text := by
  refine (List.map_congr_left ?_).trans (List.map_id text)
  intro c hc
  have hne : c ≠ '+' := fun heq => hplus (heq ▸ hc)
  exact if_neg hne

/-- An encoded value is read back. -/
theorem decodeField_urlencode (text : List Char) :
    decodeField (urlencode text) = Storage.asBytes text := by
  rw [decodeField, map_plus_eq_self (urlencode_chars text).2]
  exact Storage.percentDecode_encodeBytes true (Storage.asBytes text)

theorem decodeField_name {name : List Char} (hname : ∀ c ∈ name, isNameChar c = true) :
    decodeField name = Storage.asBytes name := by
  have hplus : '+' ∉ name := fun hmem => (isNameChar_spec (hname '+' hmem)).2.2.1 rfl
  rw [decodeField, map_plus_eq_self hplus]
  induction name with
  | nil => rfl
  | cons c rest ih =>
      rw [Storage.percentDecode_cons (isNameChar_spec (hname c List.mem_cons_self)).2.2.2,
        ih (fun d hd => hname d (List.mem_cons_of_mem c hd))
          fun hmem => hplus (List.mem_cons_of_mem c hmem)]
      rfl

/-- **Forms round trip**: names of word characters and any values. -/
theorem readQuery_writePairs {pairs : List (List Char × List Char)} (hne : pairs ≠ [])
    (hnames : ∀ pair ∈ pairs, ∀ c ∈ pair.1, isNameChar c = true) :
    readQuery (['&'].intercalate (pairs.map writePair)) =
      pairs.map fun pair => (Storage.asBytes pair.1, Storage.asBytes pair.2) := by
  have hsplit : (['&'].intercalate (pairs.map writePair)).splitOn '&' = pairs.map writePair := by
    apply List.splitOn_intercalate
    · intro text htext hmem
      obtain ⟨pair, hpair, rfl⟩ := List.mem_map.mp htext
      rcases List.mem_append.mp hmem with hname | hvalue
      · exact (isNameChar_spec (hnames pair hpair '&' hname)).1 rfl
      · rcases List.mem_cons.mp hvalue with heq | hvalue
        · exact absurd heq (by decide)
        · exact (urlencode_chars pair.2).1 hvalue
    · exact fun hnil => hne (List.map_eq_nil_iff.mp hnil)
  rw [readQuery, hsplit, List.filterMap_map]
  refine List.filterMap_eq_map_iff_forall_eq_some.mpr ?_
  intro pair hpair
  have hequals : '=' ∉ pair.1 := fun hmem => (isNameChar_spec (hnames pair hpair '=' hmem)).2.1 rfl
  have hhalves : Utf8.splitOnce '=' (writePair pair) = some (pair.1, urlencode pair.2) :=
    Utf8.splitOnce_eq_some.mpr ⟨rfl, hequals⟩
  rw [Function.comp_apply, hhalves, Option.map_some, decodeField_name (hnames pair hpair),
    decodeField_urlencode]

/-! ## The parameters -/

/-- The parameters of an authorization. -/
def authorizeParams (provider : OAuthProvider) (config : OAuthProviderConfig)
    (stateNonce challenge : List Char) : List (List Char × List Char) :=
  [("response_type".toList, "code".toList), ("client_id".toList, config.clientId),
    ("redirect_uri".toList, config.redirectUri), ("scope".toList, provider.scopes config),
    ("state".toList, stateNonce), ("code_challenge".toList, challenge),
    ("code_challenge_method".toList, "S256".toList)]

/-- Seven pairs, the middle ones with their values apart. -/
theorem intercalate_seven (first client redirect scope state challenge last : List Char)
    (clientId redirectUri scopes nonce hash : List Char) :
    first ++ '&' :: (client ++ ['=']) ++ clientId ++ '&' :: (redirect ++ ['=']) ++ redirectUri ++
        '&' :: (scope ++ ['=']) ++ scopes ++ '&' :: (state ++ ['=']) ++ nonce ++
        '&' :: (challenge ++ ['=']) ++ hash ++ '&' :: last =
      ['&'].intercalate [first, client ++ '=' :: clientId, redirect ++ '=' :: redirectUri,
        scope ++ '=' :: scopes, state ++ '=' :: nonce, challenge ++ '=' :: hash, last] := by
  simp only [List.intercalate_cons_cons, List.intercalate_singleton, List.append_assoc,
    List.cons_append, List.nil_append]

/-- The query is its parameters, written one after the other. -/
theorem authorizeQuery_eq (provider : OAuthProvider) (config : OAuthProviderConfig)
    (stateNonce challenge : List Char) :
    authorizeQuery provider config stateNonce challenge =
      ['&'].intercalate
        ((authorizeParams provider config stateNonce challenge).map writePair) := by
  have hfirst : "response_type=code&client_id=".toList =
      writePair ("response_type".toList, "code".toList) ++
        '&' :: ("client_id".toList ++ ['=']) := by
    decide +kernel
  have hredirect : "&redirect_uri=".toList = '&' :: ("redirect_uri".toList ++ ['=']) := by
    decide +kernel
  have hscope : "&scope=".toList = '&' :: ("scope".toList ++ ['=']) := by decide +kernel
  have hstate : "&state=".toList = '&' :: ("state".toList ++ ['=']) := by decide +kernel
  have hchallenge : "&code_challenge=".toList = '&' :: ("code_challenge".toList ++ ['=']) := by
    decide +kernel
  have hlast : "&code_challenge_method=S256".toList =
      '&' :: writePair ("code_challenge_method".toList, "S256".toList) := by decide +kernel
  unfold authorizeQuery
  rewrite [hfirst, hredirect, hscope, hstate, hchallenge, hlast, intercalate_seven]
  unfold authorizeParams
  rewrite [List.map_cons, List.map_cons, List.map_cons, List.map_cons, List.map_cons, List.map_cons,
    List.map_cons, List.map_nil]
  rfl

theorem authorizeParams_names {provider : OAuthProvider} {config : OAuthProviderConfig}
    {stateNonce challenge : List Char} {pair : List Char × List Char}
    (hpair : pair ∈ authorizeParams provider config stateNonce challenge) :
    ∀ c ∈ pair.1, isNameChar c = true := by
  have hkeys : ∀ name ∈ ["response_type", "client_id", "redirect_uri", "scope", "state",
      "code_challenge", "code_challenge_method"], ∀ c ∈ name.toList, isNameChar c = true := by
    decide +kernel
  have hnames : (authorizeParams provider config stateNonce challenge).map Prod.fst =
      ["response_type", "client_id", "redirect_uri", "scope", "state", "code_challenge",
        "code_challenge_method"].map String.toList := by
    unfold authorizeParams
    rfl
  have hmem := List.mem_map_of_mem (f := Prod.fst) hpair
  rw [hnames] at hmem
  obtain ⟨name, hname, heq⟩ := List.mem_map.mp hmem
  rw [← heq]
  exact hkeys name hname

/-- **The authorization URL is read as it was meant**, whatever the client, the redirect URI
and the scopes are. -/
theorem readQuery_authorizeQuery (provider : OAuthProvider) (config : OAuthProviderConfig)
    (stateNonce challenge : List Char) :
    readQuery (authorizeQuery provider config stateNonce challenge) =
      (authorizeParams provider config stateNonce challenge).map fun pair =>
        (Storage.asBytes pair.1, Storage.asBytes pair.2) := by
  rw [authorizeQuery_eq]
  exact readQuery_writePairs (List.cons_ne_nil _ _) fun _ => authorizeParams_names

end Modo.OAuth
