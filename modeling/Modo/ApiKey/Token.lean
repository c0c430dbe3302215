import Modo.Lib.Utf8

/-!
# The text of an API key

A raw token is `{prefix}_{ulid}{secret}`.  Prefixes are ASCII letters and
digits, a ULID has 26 characters of Crockford's alphabet, and a secret is drawn
from the base 62 alphabet.  `parseToken_formatToken` and `eq_of_parseToken` are
the two directions of the round trip: a token that was formatted is read back,
and what is read was formatted so.
-/

namespace Modo.ApiKey

/-- How a call of the store fails; the message of its error, or a panic. -/
inductive Failure where
  | badRequest (message : String)
  | unauthorized (message : String)
  | notFound (message : String)
  | database
  | panic
  deriving DecidableEq

/-- `ApiKeyConfig`. -/
structure ApiKeyConfig where
  keyPrefix : List Char := "modo".toList
  secretLength : ℕ := 32
  touchThresholdSecs : ℕ := 60

/-- `char::is_ascii_alphanumeric`. -/
def isAsciiAlphanumeric (c : Char) : Bool :=
  ('0' ≤ c && c ≤ '9') || ('A' ≤ c && c ≤ 'Z') || ('a' ≤ c && c ≤ 'z')

/-- `ApiKeyConfig::validate`. -/
def ApiKeyConfig.validate (config : ApiKeyConfig) : Except Failure Unit :=
  if config.keyPrefix = [] ∨ 20 < Utf8.byteLength config.keyPrefix then
    .error (.badRequest "apikey prefix must be 1-20 characters")
  else if ¬ config.keyPrefix.all isAsciiAlphanumeric then
    .error (.badRequest "apikey prefix must contain only ASCII alphanumeric characters")
  else if config.secretLength < 16 then
    .error (.badRequest "apikey secret_length must be at least 16")
  else .ok ()

/-- `CROCKFORD`. -/
def crockford : List Char := "0123456789ABCDEFGHJKMNPQRSTVWXYZ".toList

/-- What `id::ulid` returns. -/
structure Ulid where
  text : List Char
  length_eq : text.length = 26
  alphabet : ∀ c ∈ text, c ∈ crockford
  deriving DecidableEq

/-- `BASE62`. -/
def base62 : List Char :=
  "0123456789ABCDEFGHIJKLMNOPQRSTUVWXYZabcdefghijklmnopqrstuvwxyz".toList

/-- What `generate_secret` returns for a length. -/
structure Secret (length : ℕ) where
  text : List Char
  length_eq : text.length = length
  alphabet : ∀ c ∈ text, c ∈ base62
  deriving DecidableEq

/-- `format_token`. -/
def formatToken (keyPrefix ulid secret : List Char) : List Char :=
  keyPrefix ++ '_' :: (ulid ++ secret)

/-- `ParsedToken`. -/
structure ParsedToken where
  id : List Char
  secret : List Char
  deriving DecidableEq

/-- `ULID_LEN`. -/
def ulidLen : ℕ := 26

/-- `parse_token`.  Splitting the body inside a character panics. -/
def parseToken (raw expectedPrefix : List Char) : Except Failure (Option ParsedToken) :=
  match Utf8.splitOnce '_' raw with
  | none => .ok none
  | some (keyPrefix, body) =>
      if keyPrefix ≠ expectedPrefix then .ok none
      else if Utf8.byteLength body ≤ ulidLen then .ok none
      else
        match Utf8.splitAt ulidLen body with
        | none => .error .panic
        | some (id, secret) => .ok (some ⟨id, secret⟩)

/-! ## The round trip -/

theorem utf8Size_crockford : ∀ c ∈ crockford, c.utf8Size = 1 := by
  have hall : crockford.all (fun c => decide (c.utf8Size = 1)) = true := by decide
  exact fun c hc => of_decide_eq_true (List.all_eq_true.mp hall c hc)

theorem utf8Size_base62 : ∀ c ∈ base62, c.utf8Size = 1 := by
  have hall : base62.all (fun c => decide (c.utf8Size = 1)) = true := by decide
  exact fun c hc => of_decide_eq_true (List.all_eq_true.mp hall c hc)

theorem byteLength_ulid (ulid : Ulid) : Utf8.byteLength ulid.text = 26 := by
  rw [Utf8.byteLength_of_ascii fun c hc => utf8Size_crockford c (ulid.alphabet c hc),
    ulid.length_eq]

theorem byteLength_secret {length : ℕ} (secret : Secret length) :
    Utf8.byteLength secret.text = length := by
  rw [Utf8.byteLength_of_ascii fun c hc => utf8Size_base62 c (secret.alphabet c hc),
    secret.length_eq]

/-- A valid prefix has no underscore, and secrets are not empty. -/
theorem validate_spec {config : ApiKeyConfig} (hvalid : config.validate = .ok ()) :
    '_' ∉ config.keyPrefix ∧ 0 < config.secretLength := by
  unfold ApiKeyConfig.validate at hvalid
  split at hvalid
  · cases hvalid
  split at hvalid
  · cases hvalid
  · rename_i halphanumeric
    rw [not_not, List.all_eq_true] at halphanumeric
    split at hvalid
    · cases hvalid
    · refine ⟨fun hmem => ?_, by omega⟩
      exact absurd (halphanumeric '_' hmem) (by decide)

/-- A token that was formatted is read back. -/
theorem parseToken_formatToken {config : ApiKeyConfig} (hvalid : config.validate = .ok ())
    (ulid : Ulid) (secret : Secret config.secretLength) :
    parseToken (formatToken config.keyPrefix ulid.text secret.text) config.keyPrefix =
      .ok (some ⟨ulid.text, secret.text⟩) := by
  obtain ⟨hunderscore, hlength⟩ := validate_spec hvalid
  have honce : Utf8.splitOnce '_' (formatToken config.keyPrefix ulid.text secret.text) =
      some (config.keyPrefix, ulid.text ++ secret.text) :=
    Utf8.splitOnce_eq_some.mpr ⟨rfl, hunderscore⟩
  have hat : Utf8.splitAt ulidLen (ulid.text ++ secret.text) = some (ulid.text, secret.text) := by
    rw [show ulidLen = Utf8.byteLength ulid.text from (byteLength_ulid ulid).symm]
    exact Utf8.splitAt_append _ _
  have hbody : ¬ Utf8.byteLength (ulid.text ++ secret.text) ≤ ulidLen := by
    rw [Utf8.byteLength_append, byteLength_ulid, byteLength_secret, ulidLen]
    omega
  simp only [parseToken, honce, ne_eq, not_true_eq_false, if_false, hbody, hat]

/-- What is read was formatted so. -/
theorem eq_of_parseToken {raw expectedPrefix : List Char} {parsed : ParsedToken}
    (hparse : parseToken raw expectedPrefix = .ok (some parsed)) :
    raw = formatToken expectedPrefix parsed.id parsed.secret := by
  unfold parseToken at hparse
  split at hparse
  · cases hparse
  · rename_i keyPrefix body honce
    split at hparse
    · cases hparse
    · rename_i hprefixes
      rw [not_not] at hprefixes
      split at hparse
      · cases hparse
      · split at hparse
        · cases hparse
        · rename_i id secret hat
          simp only [Except.ok.injEq, Option.some.injEq] at hparse
          subst hparse hprefixes
          rw [formatToken, (Utf8.splitOnce_eq_some.mp honce).1, Utf8.append_of_splitAt hat]

end Modo.ApiKey
