import Modo.Encoding.Base64url
import Modo.Json
import Modo.Lib.Utf8
import Modo.Session.Jwt.Service

/-!
# Tokens

`JwtEncoder::encode` writes claims as a signed token, and `JwtDecoder::decode` reads a
token back.  A token is a header, a payload and a signature in base64url, joined by dots;
the signature is over the first two parts as they are written.

The signature scheme and the texts of JSON values are parameters.  `decode_token` says that
decoding gives back the claims that were encoded, and that what is accepted is a token of
this form whose signature verifies and whose claims satisfy the validation.
-/

namespace Modo.Sessions.Jwt

/-! ## Claims as JSON -/

/-- `serde_json`: the text of a value and of claims, and the value of a text. -/
structure Serde where
  toVec : Json → Option (List UInt8)
  toVecClaims : Claims → Option (List UInt8)
  fromSlice : List UInt8 → Option Json

/-- A member that is left out when it is `None`. -/
def insertSome (key : String) (value : Option Json) (members : List (String × Json)) :
    List (String × Json) :=
  match value with
  | some value => Json.insertMember key value members
  | none => members

namespace Claims

def u64 (value : ℕ) : Json := .number (.posInt value)

/-- The members in the order of the fields. -/
def members (claims : Claims) : List (String × Option Json) :=
  [("iss", claims.iss.map .string), ("sub", claims.sub.map .string),
   ("aud", claims.aud.map .string), ("exp", claims.exp.map u64), ("nbf", claims.nbf.map u64),
   ("iat", claims.iat.map u64), ("jti", claims.jti.map fun jti => .string (String.ofList jti))]

/-- `serde_json::to_value`. -/
def toValue (claims : Claims) : Json :=
  .object (claims.members.foldl (fun members (key, value) => insertSome key value members) [])

/-- A field of type `Option<String>`. -/
def optString : Option Json → Option (Option String)
  | none | some .null => some none
  | some (.string value) => some (some value)
  | some _ => none

/-- A field of type `Option<u64>`. -/
def optU64 : Option Json → Option (Option ℕ)
  | none | some .null => some none
  | some (.number (.posInt value)) => some (some value)
  | some _ => none

/-- `serde_json::from_value`; members that are not fields are ignored. -/
def fromValue (value : Json) : Option Claims := do
  let iss ← optString (value.get "iss")
  let sub ← optString (value.get "sub")
  let aud ← optString (value.get "aud")
  let exp ← optU64 (value.get "exp")
  let nbf ← optU64 (value.get "nbf")
  let iat ← optU64 (value.get "iat")
  let jti ← optString (value.get "jti")
  some ⟨iss, sub, aud, exp, nbf, iat, jti.map String.toList⟩

end Claims

/-- `DeserializeOwned`, from a value. -/
class DeserializeOwned (T : Type) where
  fromValue : Json → Option T

instance : DeserializeOwned Claims := ⟨Claims.fromValue⟩

/-! ## Signers -/

/-- `TokenVerifier`. -/
structure TokenVerifier where
  algorithmName : String
  verify : List UInt8 → List UInt8 → Bool

/-- `TokenSigner`. -/
structure TokenSigner extends TokenVerifier where
  sign : List UInt8 → Option (List UInt8)

/-- `HmacSigner`, given HMAC-SHA256 under its secret. -/
def hmacSigner (hmac : List UInt8 → List UInt8) : TokenSigner where
  algorithmName := "HS256"
  verify message signature := decide (signature = hmac message)
  sign message := some (hmac message)

structure ValidationConfig where
  /-- In seconds. -/
  leeway : ℕ := 0
  requireIssuer : Option String := none
  requireAudience : Option String := none

structure JwtEncoder where
  signer : TokenSigner
  /-- In seconds. -/
  defaultExpiry : Option ℕ
  validation : ValidationConfig

structure JwtDecoder where
  verifier : TokenVerifier
  validation : ValidationConfig

/-- `JwtEncoder::from_config`, given the signer of the secret. -/
def JwtEncoder.fromConfig (signer : TokenSigner) (config : JwtSessionsConfig) : JwtEncoder where
  signer := signer
  defaultExpiry := some config.accessTtlSecs
  validation := { requireIssuer := config.issuer }

/-- `JwtDecoder::from(&encoder)`. -/
def JwtDecoder.ofEncoder (encoder : JwtEncoder) : JwtDecoder where
  verifier := encoder.signer.toTokenVerifier
  validation := encoder.validation

/-! ## Encoding -/

inductive EncodeError where
  | serializationFailed
  | signingFailed
  deriving DecidableEq

/-- The text of the header. -/
def headerText (alg : String) : String :=
  "\x7b\"alg\":\"" ++ alg ++ "\",\"typ\":\"JWT\"\x7d"

/-- The bytes of a part of a token. -/
def textBytes (text : List Char) : List UInt8 := text.flatMap String.utf8EncodeChar

/-- The value that is signed: the claims, with `exp` set if there is a default for it. -/
def JwtEncoder.payload (encoder : JwtEncoder) (now : ℕ) (claims : Claims) : Json :=
  match encoder.defaultExpiry with
  | some defaultExp =>
      let value := claims.toValue
      if (value.get "exp").isNone then
        value.set "exp" (.number (.posInt (addSecs now defaultExp)))
      else value
  | none => claims.toValue

/-- Its text.  Without a default the claims are written without going through a value. -/
def JwtEncoder.claimsJson (serde : Serde) (encoder : JwtEncoder) (now : ℕ) (claims : Claims) :
    Option (List UInt8) :=
  match encoder.defaultExpiry with
  | some _ => serde.toVec (encoder.payload now claims)
  | none => serde.toVecClaims claims

def JwtEncoder.encode (serde : Serde) (encoder : JwtEncoder) (now : ℕ) (claims : Claims) :
    Except EncodeError (List Char) :=
  match encoder.claimsJson serde now claims with
  | none => .error .serializationFailed
  | some claimsJson =>
      let header := headerText encoder.signer.algorithmName
      let headerB64 := Base64url.encode (Utf8.asBytes header)
      let payloadB64 := Base64url.encode claimsJson
      let headerPayload := headerB64 ++ '.' :: payloadB64
      match encoder.signer.sign (textBytes headerPayload) with
      | none => .error .signingFailed
      | some signature => .ok (headerPayload ++ '.' :: Base64url.encode signature)

/-! ## Decoding -/

/-- `Option::ok_or`. -/
def okOr {α : Type*} (value : Option α) (error : JwtError) : Except JwtError α :=
  match value with
  | some value => .ok value
  | none => .error error

/-- A check. -/
def ensure (condition : Bool) (error : JwtError) : Except JwtError Unit :=
  if condition then .ok () else .error error

namespace JwtDecoder

/-- The three parts. -/
def parts (token : List Char) : Except JwtError (List Char × List Char × List Char) :=
  match Utf8.splitN '.' 4 token with
  | [headerB64, payloadB64, signatureB64] => .ok (headerB64, payloadB64, signatureB64)
  | _ => .error .malformedToken

def checkHeader (serde : Serde) (decoder : JwtDecoder) (headerB64 : List Char) :
    Except JwtError Unit := do
  let headerBytes ← okOr (Base64url.decode headerB64).toOption .invalidHeader
  let header ← okOr (serde.fromSlice headerBytes) .invalidHeader
  let alg ← okOr ((header.get "alg").bind Json.asStr) .invalidHeader
  ensure (decide (alg = decoder.verifier.algorithmName)) .algorithmMismatch

def checkSignature (decoder : JwtDecoder) (headerB64 payloadB64 signatureB64 : List Char) :
    Except JwtError Unit := do
  let signature ← okOr (Base64url.decode signatureB64).toOption .malformedToken
  ensure (decoder.verifier.verify (textBytes (headerB64 ++ '.' :: payloadB64)) signature)
    .invalidSignature

def readPayload (serde : Serde) (payloadB64 : List Char) : Except JwtError Json := do
  let payloadBytes ← okOr (Base64url.decode payloadB64).toOption .malformedToken
  okOr (serde.fromSlice payloadBytes) .deserializationFailed

/-- The checks of `exp`, `nbf`, `iss` and `aud`. -/
def checkClaims (validation : ValidationConfig) (now : ℕ) (payload : Json) :
    Except JwtError Unit := do
  let exp ← okOr ((payload.get "exp").bind Json.asU64) .expired
  ensure (decide (now ≤ addSecs exp validation.leeway)) .expired
  ensure (((payload.get "nbf").bind Json.asU64).all fun nbf =>
    decide (nbf ≤ addSecs now validation.leeway)) .notYetValid
  ensure (validation.requireIssuer.all fun required =>
    decide ((payload.get "iss").bind Json.asStr = some required)) .invalidIssuer
  ensure (validation.requireAudience.all fun required =>
    decide ((payload.get "aud").bind Json.asStr = some required)) .invalidAudience

/-- `decode`. -/
def decode {T : Type} [DeserializeOwned T] (serde : Serde) (decoder : JwtDecoder) (now : ℕ)
    (token : List Char) : Except JwtError T := do
  let (headerB64, payloadB64, signatureB64) ← parts token
  decoder.checkHeader serde headerB64
  decoder.checkSignature headerB64 payloadB64 signatureB64
  let payload ← readPayload serde payloadB64
  checkClaims decoder.validation now payload
  okOr (DeserializeOwned.fromValue payload) .deserializationFailed

end JwtDecoder

/-! ## What the checks ask -/

section Checks

theorem bind_eq_ok {α β : Type} {x : Except JwtError α} {f : α → Except JwtError β} {b : β} :
    (x >>= f) = .ok b ↔ ∃ a, x = .ok a ∧ f a = .ok b := by
  cases x with
  | error error =>
      constructor
      · intro h
        cases h
      · rintro ⟨a, h, -⟩
        cases h
  | ok a =>
      constructor
      · exact fun h => ⟨a, rfl, h⟩
      · rintro ⟨a', ha, h⟩
        cases ha
        exact h

theorem okOr_eq_ok {α : Type*} {value : Option α} {error : JwtError} {a : α} :
    okOr value error = .ok a ↔ value = some a := by
  cases value <;> simp [okOr]

theorem ensure_eq_ok {condition : Bool} {error : JwtError} {done : Unit} :
    ensure condition error = .ok done ↔ condition = true := by
  cases condition <;> simp [ensure]

theorem toOption_eq_some {α ε : Type*} {x : Except ε α} {a : α} :
    x.toOption = some a ↔ x = .ok a := by
  cases x <;> simp [Except.toOption]

theorem parts_eq_ok {token first second third : List Char} :
    JwtDecoder.parts token = .ok (first, second, third) ↔
      token = first ++ '.' :: (second ++ '.' :: third) ∧
        '.' ∉ first ∧ '.' ∉ second ∧ '.' ∉ third := by
  rw [← Utf8.splitN_four_eq_three]
  unfold JwtDecoder.parts
  split
  · rename_i a b c hsplit
    rw [hsplit]
    simp
  · rename_i hsplit
    constructor
    · intro h
      cases h
    · intro h
      exact absurd h (hsplit first second third)

theorem checkHeader_eq_ok {serde : Serde} {decoder : JwtDecoder} {headerB64 : List Char}
    {done : Unit} :
    decoder.checkHeader serde headerB64 = .ok done ↔
      ∃ bytes header, Base64url.decode headerB64 = .ok bytes ∧
        serde.fromSlice bytes = some header ∧
        (header.get "alg").bind Json.asStr = some decoder.verifier.algorithmName := by
  simp only [JwtDecoder.checkHeader, bind_eq_ok, okOr_eq_ok, ensure_eq_ok, toOption_eq_some,
    decide_eq_true_eq]
  constructor
  · rintro ⟨bytes, hbytes, header, hheader, alg, halg, rfl⟩
    exact ⟨bytes, header, hbytes, hheader, halg⟩
  · rintro ⟨bytes, header, hbytes, hheader, halg⟩
    exact ⟨bytes, hbytes, header, hheader, _, halg, rfl⟩

theorem checkSignature_eq_ok {decoder : JwtDecoder}
    {headerB64 payloadB64 signatureB64 : List Char} {done : Unit} :
    decoder.checkSignature headerB64 payloadB64 signatureB64 = .ok done ↔
      ∃ signature, Base64url.decode signatureB64 = .ok signature ∧
        decoder.verifier.verify (textBytes (headerB64 ++ '.' :: payloadB64)) signature = true := by
  simp only [JwtDecoder.checkSignature, bind_eq_ok, okOr_eq_ok, ensure_eq_ok, toOption_eq_some]

theorem readPayload_eq_ok {serde : Serde} {payloadB64 : List Char} {payload : Json} :
    JwtDecoder.readPayload serde payloadB64 = .ok payload ↔
      ∃ bytes, Base64url.decode payloadB64 = .ok bytes ∧ serde.fromSlice bytes = some payload := by
  simp only [JwtDecoder.readPayload, bind_eq_ok, okOr_eq_ok, toOption_eq_some]

theorem checkClaims_eq_ok {validation : ValidationConfig} {now : ℕ} {payload : Json}
    {done : Unit} :
    JwtDecoder.checkClaims validation now payload = .ok done ↔
      (∃ exp, (payload.get "exp").bind Json.asU64 = some exp ∧
        now ≤ addSecs exp validation.leeway) ∧
      (∀ nbf, (payload.get "nbf").bind Json.asU64 = some nbf →
        nbf ≤ addSecs now validation.leeway) ∧
      (∀ required, validation.requireIssuer = some required →
        (payload.get "iss").bind Json.asStr = some required) ∧
      ∀ required, validation.requireAudience = some required →
        (payload.get "aud").bind Json.asStr = some required := by
  simp only [JwtDecoder.checkClaims, bind_eq_ok, okOr_eq_ok, ensure_eq_ok, decide_eq_true_eq,
    Option.all_eq_true]
  constructor
  · rintro ⟨exp, hexp, -, hnow, -, hnbf, -, hiss, haud⟩
    exact ⟨⟨exp, hexp, hnow⟩, hnbf, hiss, haud⟩
  · rintro ⟨⟨exp, hexp, hnow⟩, hnbf, hiss, haud⟩
    exact ⟨exp, hexp, (), hnow, (), hnbf, (), hiss, haud⟩

theorem decode_eq_ok {T : Type} [DeserializeOwned T] {serde : Serde} {decoder : JwtDecoder}
    {now : ℕ} {token : List Char} {value : T} :
    decoder.decode serde now token = .ok value ↔
      ∃ headerB64 payloadB64 signatureB64 payload,
        JwtDecoder.parts token = .ok (headerB64, payloadB64, signatureB64) ∧
        decoder.checkHeader serde headerB64 = .ok () ∧
        decoder.checkSignature headerB64 payloadB64 signatureB64 = .ok () ∧
        JwtDecoder.readPayload serde payloadB64 = .ok payload ∧
        JwtDecoder.checkClaims decoder.validation now payload = .ok () ∧
        DeserializeOwned.fromValue payload = some value := by
  simp only [JwtDecoder.decode, bind_eq_ok, okOr_eq_ok, Prod.exists]
  constructor
  · rintro ⟨headerB64, payloadB64, signatureB64, hparts, ⟨⟩, hheader, ⟨⟩, hsignature, payload,
      hpayload, ⟨⟩, hclaims, hvalue⟩
    exact ⟨headerB64, payloadB64, signatureB64, payload, hparts, hheader, hsignature, hpayload,
      hclaims, hvalue⟩
  · rintro ⟨headerB64, payloadB64, signatureB64, payload, hparts, hheader, hsignature, hpayload,
      hclaims, hvalue⟩
    exact ⟨headerB64, payloadB64, signatureB64, hparts, (), hheader, (), hsignature, payload,
      hpayload, (), hclaims, hvalue⟩

end Checks

/-! ## Claims and their values -/

/-- The value has the members of the claims. -/
def Represents (value : Json) (claims : Claims) : Prop :=
  ∀ key, value.get key = (claims.members.lookup key).join

theorem lookup_insertSome (key other : String) (value : Option Json)
    (members : List (String × Json)) :
    (insertSome key value members).lookup other =
      if other = key then value.or (members.lookup other) else members.lookup other := by
  cases value with
  | none => simp [insertSome]
  | some value => simp [insertSome, Json.lookup_insertMember]

/-- Fields with distinct names are found again. -/
theorem lookup_foldl_insertSome {fields : List (String × Option Json)}
    (hnodup : (fields.map Prod.fst).Nodup) (members : List (String × Json)) (key : String) :
    (fields.foldl (fun members (name, value) => insertSome name value members) members).lookup
        key =
      (fields.lookup key).join.or (members.lookup key) := by
  induction fields generalizing members with
  | nil => rfl
  | cons field rest ih =>
      obtain ⟨name, value⟩ := field
      rw [List.map_cons, List.nodup_cons] at hnodup
      rw [List.foldl_cons, ih hnodup.2, lookup_insertSome, List.lookup_cons]
      by_cases hkey : key = name
      · subst hkey
        have hnone : rest.lookup key = none := by
          rw [List.lookup_eq_none_iff]
          intro other hother
          have hmem : other.1 ∈ rest.map Prod.fst := List.mem_map_of_mem hother
          have hne : key ≠ other.1 := fun heq => hnodup.1 (heq ▸ hmem)
          simpa using hne
        simp [hnone]
      · simp [hkey, beq_false_of_ne hkey]

theorem represents_toValue (claims : Claims) : Represents claims.toValue claims := by
  intro key
  have hnames : (["iss", "sub", "aud", "exp", "nbf", "iat", "jti"] : List String).Nodup := by
    decide +kernel
  have hnodup : (claims.members.map Prod.fst).Nodup := hnames
  rw [Claims.toValue, Json.get, lookup_foldl_insertSome hnodup]
  simp

theorem optString_map (value : Option String) :
    Claims.optString (value.map .string) = some value := by
  cases value <;> rfl

theorem optU64_map (value : Option ℕ) : Claims.optU64 (value.map Claims.u64) = some value := by
  cases value <;> rfl

/-- The claims are read back from a value that has their members. -/
theorem fromValue_of_represents {value : Json} {claims : Claims}
    (hvalue : Represents value claims) : Claims.fromValue value = some claims := by
  have hjti : Claims.optString (claims.jti.map fun jti => .string (String.ofList jti)) =
      some (claims.jti.map String.ofList) := by
    cases claims.jti <;> rfl
  simp [Claims.fromValue, hvalue _, Claims.members, List.lookup_cons, optString_map, optU64_map,
    hjti]

/-- The claims with the default for `exp`. -/
def JwtEncoder.filled (encoder : JwtEncoder) (now : ℕ) (claims : Claims) : Claims :=
  { claims with exp := claims.exp.or (encoder.defaultExpiry.map (now + ·)) }

/-- The members of claims with another `exp`. -/
theorem lookup_members_exp (claims : Claims) (exp : Option ℕ) (key : String) :
    (({ claims with exp := exp } : Claims).members.lookup key).join =
      if key = "exp" then exp.map Claims.u64 else (claims.members.lookup key).join := by
  by_cases hkey : key = "exp"
  · subst hkey
    rfl
  · rw [if_neg hkey]
    simp only [Claims.members, List.lookup_cons, beq_false_of_ne hkey]

theorem get_set_toValue (claims : Claims) (key other : String) (value : Json) :
    (claims.toValue.set key value).get other =
      if other = key then some value else claims.toValue.get other :=
  Json.lookup_insertMember key other value _

theorem represents_payload (encoder : JwtEncoder) (now : ℕ) (claims : Claims)
    (hsum : ∀ defaultExp, encoder.defaultExpiry = some defaultExp → now + defaultExp < 2 ^ 64) :
    Represents (encoder.payload now claims) (encoder.filled now claims) := by
  have hclaims := represents_toValue claims
  have hexp : claims.toValue.get "exp" = claims.exp.map Claims.u64 := hclaims "exp"
  intro key
  rw [JwtEncoder.filled, lookup_members_exp, JwtEncoder.payload, ← hclaims key]
  cases hdefault : encoder.defaultExpiry with
  | none =>
      by_cases hkey : key = "exp"
      · rw [if_pos hkey, hkey, hexp, Option.map_none, Option.or_none]
      · rw [if_neg hkey]
  | some defaultExp =>
      have hadd : addSecs now defaultExp = now + defaultExp :=
        Nat.mod_eq_of_lt (hsum defaultExp hdefault)
      cases hclaimed : claims.exp with
      | some exp =>
          simp only [hexp, hclaimed, Option.map_some, Option.isNone_some, Bool.false_eq_true,
            if_false, Option.some_or]
          by_cases hkey : key = "exp"
          · rw [if_pos hkey, hkey, hexp, hclaimed, Option.map_some]
          · rw [if_neg hkey]
      | none =>
          simp only [hexp, hclaimed, Option.map_none, Option.isNone_none, if_true,
            get_set_toValue, hadd, Option.none_or, Option.map_some]
          rfl

/-! ## The result -/

/-- What the validation asks of `exp`, `nbf`, `iss` and `aud` at a time. -/
structure Satisfies (validation : ValidationConfig) (now : ℕ) (exp nbf : Option ℕ)
    (iss aud : Option String) : Prop where
  notExpired : ∃ time, exp = some time ∧ now ≤ time + validation.leeway
  valid : ∀ time, nbf = some time → time ≤ now + validation.leeway
  issuer : ∀ required, validation.requireIssuer = some required → iss = some required
  audience : ∀ required, validation.requireAudience = some required → aud = some required

/-- What it asks of claims. -/
def SatisfiedBy (validation : ValidationConfig) (now : ℕ) (claims : Claims) : Prop :=
  Satisfies validation now claims.exp claims.nbf claims.iss claims.aud

theorem bind_asU64_map (value : Option ℕ) : (value.map Claims.u64).bind Json.asU64 = value := by
  cases value <;> rfl

theorem bind_asStr_map (value : Option String) :
    (value.map Json.string).bind Json.asStr = value := by
  cases value <;> rfl

/-- The checks pass on claims that satisfy the validation. -/
theorem checkClaims_of_satisfies {validation : ValidationConfig} {now : ℕ} {payload : Json}
    {claims : Claims} (hpayload : Represents payload claims)
    (hsatisfies : SatisfiedBy validation now claims)
    (hexp : ∀ exp, claims.exp = some exp → exp + validation.leeway < 2 ^ 64)
    (hnow : now + validation.leeway < 2 ^ 64) :
    JwtDecoder.checkClaims validation now payload = .ok () := by
  have hgetExp : payload.get "exp" = claims.exp.map Claims.u64 := hpayload "exp"
  have hgetNbf : payload.get "nbf" = claims.nbf.map Claims.u64 := hpayload "nbf"
  have hgetIss : payload.get "iss" = claims.iss.map Json.string := hpayload "iss"
  have hgetAud : payload.get "aud" = claims.aud.map Json.string := hpayload "aud"
  rw [checkClaims_eq_ok, hgetExp, hgetNbf, hgetIss, hgetAud, bind_asU64_map, bind_asU64_map,
    bind_asStr_map, bind_asStr_map]
  obtain ⟨exp, hclaimed, hle⟩ := hsatisfies.notExpired
  refine ⟨⟨exp, hclaimed, ?_⟩, ?_, hsatisfies.issuer, hsatisfies.audience⟩
  · rw [addSecs, Nat.mod_eq_of_lt (hexp exp hclaimed)]
    exact hle
  · rw [addSecs, Nat.mod_eq_of_lt hnow]
    exact hsatisfies.valid

/-- A payload that passes the checks satisfies the validation; a sum that wraps around is
only smaller. -/
theorem satisfies_of_checkClaims {validation : ValidationConfig} {now : ℕ} {payload : Json}
    (hcheck : JwtDecoder.checkClaims validation now payload = .ok ()) :
    Satisfies validation now ((payload.get "exp").bind Json.asU64)
      ((payload.get "nbf").bind Json.asU64) ((payload.get "iss").bind Json.asStr)
      ((payload.get "aud").bind Json.asStr) := by
  obtain ⟨⟨exp, hexp, hle⟩, hnbf, hiss, haud⟩ := checkClaims_eq_ok.mp hcheck
  refine ⟨⟨exp, hexp, hle.trans (Nat.mod_le _ _)⟩, ?_, hiss, haud⟩
  intro nbf hread
  exact (hnbf nbf hread).trans (Nat.mod_le _ _)

theorem optU64_eq_some {value : Option Json} {read : Option ℕ}
    (hread : Claims.optU64 value = some read) : value.bind Json.asU64 = read := by
  unfold Claims.optU64 at hread
  split at hread <;> first | cases hread; rfl | cases hread

theorem optString_eq_some {value : Option Json} {read : Option String}
    (hread : Claims.optString value = some read) : value.bind Json.asStr = read := by
  unfold Claims.optString at hread
  split at hread <;> first | cases hread; rfl | cases hread

/-- So do the claims that are read from it. -/
theorem satisfiedBy_of_checkClaims {validation : ValidationConfig} {now : ℕ} {payload : Json}
    {claims : Claims} (hvalue : Claims.fromValue payload = some claims)
    (hcheck : JwtDecoder.checkClaims validation now payload = .ok ()) :
    SatisfiedBy validation now claims := by
  have hsatisfies := satisfies_of_checkClaims hcheck
  simp only [Claims.fromValue, Option.bind_eq_bind, Option.bind_eq_some_iff,
    Option.some.injEq] at hvalue
  obtain ⟨iss, hiss, sub, -, aud, haud, exp, hexp, nbf, hnbf, iat, -, jti, -, rfl⟩ := hvalue
  rwa [optU64_eq_some hexp, optU64_eq_some hnbf, optString_eq_some hiss,
    optString_eq_some haud] at hsatisfies

theorem dot_notMem_encode (bytes : List UInt8) : '.' ∉ Base64url.encode bytes := by
  intro hmem
  have hok : (Base64url.decode (Base64url.encode bytes)).isOk = true := by
    rw [Base64url.decode_encode]
    rfl
  exact absurd ((Base64url.decode_isOk_iff _).mp hok '.' hmem) (by decide)

theorem encode_eq_ok {serde : Serde} {encoder : JwtEncoder} {now : ℕ} {claims : Claims}
    {token : List Char} (hencode : encoder.encode serde now claims = .ok token) :
    ∃ text signature, encoder.claimsJson serde now claims = some text ∧
      encoder.signer.sign (textBytes
        (Base64url.encode (Utf8.asBytes (headerText encoder.signer.algorithmName)) ++
          '.' :: Base64url.encode text)) = some signature ∧
      token = Base64url.encode (Utf8.asBytes (headerText encoder.signer.algorithmName)) ++
        '.' :: (Base64url.encode text ++ '.' :: Base64url.encode signature) := by
  unfold JwtEncoder.encode at hencode
  split at hencode
  · cases hencode
  rename_i text htext
  simp only at hencode
  split at hencode
  · cases hencode
  rename_i signature hsignature
  rw [Except.ok.injEq] at hencode
  refine ⟨text, signature, htext, hsignature, ?_⟩
  rw [← hencode, List.append_assoc, List.cons_append]

/-- The value of the header. -/
def headerValue (alg : String) : Json :=
  .object [("alg", .string alg), ("typ", .string "JWT")]

theorem alg_headerValue (alg : String) : ((headerValue alg).get "alg").bind Json.asStr = some alg :=
  rfl

/-- The text of the payload is read as the payload. -/
def ReadsBack (serde : Serde) (encoder : JwtEncoder) (now : ℕ) (claims : Claims) : Prop :=
  ∀ text, encoder.claimsJson serde now claims = some text →
    serde.fromSlice text = some (encoder.payload now claims)

/-- What is encoded is decoded. -/
theorem decode_of_encode {serde : Serde} {encoder : JwtEncoder}
    (hverify : ∀ message signature, encoder.signer.sign message = some signature →
      encoder.signer.verify message signature = true)
    (hheader : serde.fromSlice (Utf8.asBytes (headerText encoder.signer.algorithmName)) =
      some (headerValue encoder.signer.algorithmName))
    {claims : Claims} {now later : ℕ} {token : List Char}
    (hreads : ReadsBack serde encoder now claims)
    (hsum : ∀ defaultExp, encoder.defaultExpiry = some defaultExp → now + defaultExp < 2 ^ 64)
    (hexp : ∀ exp, (encoder.filled now claims).exp = some exp →
      exp + encoder.validation.leeway < 2 ^ 64)
    (hlater : later + encoder.validation.leeway < 2 ^ 64)
    (hencode : encoder.encode serde now claims = .ok token)
    (hsatisfies : SatisfiedBy encoder.validation later (encoder.filled now claims)) :
    (JwtDecoder.ofEncoder encoder).decode serde later token = .ok (encoder.filled now claims) := by
  obtain ⟨text, signature, htext, hsignature, rfl⟩ := encode_eq_ok hencode
  have hpayload := represents_payload encoder now claims hsum
  refine decode_eq_ok.mpr ⟨_, _, _, encoder.payload now claims,
    parts_eq_ok.mpr ⟨rfl, dot_notMem_encode _, dot_notMem_encode _, dot_notMem_encode _⟩,
    checkHeader_eq_ok.mpr ⟨_, _, Base64url.decode_encode _, hheader, alg_headerValue _⟩,
    checkSignature_eq_ok.mpr ⟨signature, Base64url.decode_encode _, hverify _ _ hsignature⟩,
    readPayload_eq_ok.mpr ⟨text, Base64url.decode_encode _, hreads text htext⟩,
    checkClaims_of_satisfies hpayload hsatisfies hexp hlater,
    fromValue_of_represents hpayload⟩

/-- Claims that are decoded satisfy the validation. -/
theorem satisfiedBy_of_decode {serde : Serde} {decoder : JwtDecoder} {now : ℕ}
    {token : List Char} {claims : Claims} (hdecode : decoder.decode serde now token = .ok claims) :
    SatisfiedBy decoder.validation now claims := by
  obtain ⟨-, -, -, payload, -, -, -, -, hcheckClaims, hvalue⟩ := decode_eq_ok.mp hdecode
  exact satisfiedBy_of_checkClaims hvalue hcheckClaims

/-- The checks of the service are those of the decoder that is made from its encoder. -/
theorem validate_eq_ok_iff (signer : TokenSigner) (config : JwtSessionsConfig) (now : ℕ)
    (claims : Claims) :
    validate config now claims = .ok claims ↔
      SatisfiedBy (JwtEncoder.fromConfig signer config).validation now claims := by
  have hissuer : ¬(config.issuer ≠ none ∧ claims.iss ≠ config.issuer) ↔
      ∀ required, config.issuer = some required → claims.iss = some required := by
    cases config.issuer <;> simp
  have hnbf : ¬(claims.nbf.any fun nbf => decide (now < nbf)) = true ↔
      ∀ nbf, claims.nbf = some nbf → nbf ≤ now := by
    cases claims.nbf <;> simp
  unfold validate
  constructor
  · intro hvalid
    split at hvalid
    · cases hvalid
    rename_i exp hexp
    split at hvalid
    · cases hvalid
    rename_i hnow
    split at hvalid
    · cases hvalid
    rename_i hbefore
    split at hvalid
    · cases hvalid
    rename_i hiss
    exact ⟨⟨exp, hexp, Nat.le_of_not_lt hnow⟩, hnbf.mp hbefore, hissuer.mp hiss, nofun⟩
  · rintro ⟨⟨exp, hexp, hnow⟩, hbefore, hiss, -⟩
    have hnotExpired : ¬exp < now := Nat.not_lt.mpr hnow
    rw [hexp]
    simp only
    rw [if_neg hnotExpired, if_neg (hnbf.mpr hbefore), if_neg (hissuer.mpr hiss)]

/-- What the service's decoder returns passes the service's checks. -/
theorem validate_of_decode {serde : Serde} {signer : TokenSigner} {config : JwtSessionsConfig}
    {now : ℕ} {token : List Char} {claims : Claims}
    (hdecode : (JwtDecoder.ofEncoder (.fromConfig signer config)).decode serde now token =
      .ok claims) :
    validate config now claims = .ok claims :=
  (validate_eq_ok_iff signer config now claims).mpr (satisfiedBy_of_decode hdecode)

/-- A text that is decoded is in the alphabet. -/
theorem isDigit_of_decode {part : List Char} {bytes : List UInt8}
    (hdecode : Base64url.decode part = .ok bytes) :
    ∀ ch ∈ part, Base64url.isDigit ch = true := by
  rw [← Base64url.decode_isOk_iff, hdecode]
  rfl

/-- **Encoding and decoding agree, and only tokens are accepted.**  For every encoder whose
signatures verify, and JSON texts that are read as what they were written for:

- the decoder made from the encoder gives back the claims it has encoded, with `exp` filled
  by the default, at every time at which they satisfy the validation;
- a text that any decoder accepts has exactly two dots and three parts in base64url, a header
  with the verifier's algorithm, a signature that verifies over the first two parts as they
  are written, and a payload that satisfies the validation;
- so do the claims that are decoded. -/
theorem decode_token (serde : Serde) (encoder : JwtEncoder)
    (hverify : ∀ message signature, encoder.signer.sign message = some signature →
      encoder.signer.verify message signature = true)
    (hheader : serde.fromSlice (Utf8.asBytes (headerText encoder.signer.algorithmName)) =
      some (headerValue encoder.signer.algorithmName)) :
    (∀ claims now later token, ReadsBack serde encoder now claims →
      (∀ defaultExp, encoder.defaultExpiry = some defaultExp → now + defaultExp < 2 ^ 64) →
      (∀ exp, (encoder.filled now claims).exp = some exp →
        exp + encoder.validation.leeway < 2 ^ 64) →
      later + encoder.validation.leeway < 2 ^ 64 →
      encoder.encode serde now claims = .ok token →
      SatisfiedBy encoder.validation later (encoder.filled now claims) →
        (JwtDecoder.ofEncoder encoder).decode serde later token =
          .ok (encoder.filled now claims)) ∧
    (∀ (T : Type) [DeserializeOwned T] (decoder : JwtDecoder) now token (value : T),
      decoder.decode serde now token = .ok value →
      token.count '.' = 2 ∧
      ∃ headerB64 payloadB64 signatureB64,
        token = headerB64 ++ '.' :: (payloadB64 ++ '.' :: signatureB64) ∧
        (∀ ch ∈ headerB64 ++ payloadB64 ++ signatureB64, Base64url.isDigit ch = true) ∧
        ∃ headerBytes header payloadBytes payload signature,
          Base64url.decode headerB64 = .ok headerBytes ∧
          serde.fromSlice headerBytes = some header ∧
          (header.get "alg").bind Json.asStr = some decoder.verifier.algorithmName ∧
          Base64url.decode signatureB64 = .ok signature ∧
          decoder.verifier.verify (textBytes (headerB64 ++ '.' :: payloadB64)) signature = true ∧
          Base64url.decode payloadB64 = .ok payloadBytes ∧
          serde.fromSlice payloadBytes = some payload ∧
          DeserializeOwned.fromValue payload = some value ∧
          Satisfies decoder.validation now ((payload.get "exp").bind Json.asU64)
            ((payload.get "nbf").bind Json.asU64) ((payload.get "iss").bind Json.asStr)
            ((payload.get "aud").bind Json.asStr)) ∧
    ∀ (decoder : JwtDecoder) now token claims, decoder.decode serde now token = .ok claims →
      SatisfiedBy decoder.validation now claims := by
  refine ⟨?_, ?_, ?_⟩
  · intro claims now later token hreads hsum hexp hlater hencode hsatisfies
    exact decode_of_encode hverify hheader hreads hsum hexp hlater hencode hsatisfies
  · intro T _ decoder now token value hdecode
    obtain ⟨headerB64, payloadB64, signatureB64, payload, hparts, hcheckHeader, hcheckSignature,
      hreadPayload, hcheckClaims, hvalue⟩ := decode_eq_ok.mp hdecode
    -- each check of the decoder gives back what it read
    obtain ⟨rfl, hfirst, hsecond, hthird⟩ := parts_eq_ok.mp hparts
    obtain ⟨headerBytes, header, hheaderBytes, hread, hname⟩ := checkHeader_eq_ok.mp hcheckHeader
    obtain ⟨signature, hsignature, hverified⟩ := checkSignature_eq_ok.mp hcheckSignature
    obtain ⟨payloadBytes, hpayloadBytes, hpayload⟩ := readPayload_eq_ok.mp hreadPayload
    refine ⟨?_, headerB64, payloadB64, signatureB64, rfl, ?_, headerBytes, header, payloadBytes,
      payload, signature, hheaderBytes, hread, hname, hsignature, hverified, hpayloadBytes,
      hpayload, hvalue, satisfies_of_checkClaims hcheckClaims⟩
    · simp [List.count_append, List.count_eq_zero_of_not_mem hfirst,
        List.count_eq_zero_of_not_mem hsecond, List.count_eq_zero_of_not_mem hthird]
    · intro ch hch
      rw [List.mem_append, List.mem_append] at hch
      rcases hch with (hch | hch) | hch
      · exact isDigit_of_decode hheaderBytes ch hch
      · exact isDigit_of_decode hpayloadBytes ch hch
      · exact isDigit_of_decode hsignature ch hch
  · intro decoder now token claims hdecode
    exact satisfiedBy_of_decode hdecode

/-! ## A token -/

def userClaims : Claims := { sub := some "user", iat := some 1767225600 }

def userPayload : Json :=
  .object [("exp", .number (.posInt 1767226500)), ("iat", .number (.posInt 1767225600)),
    ("sub", .string "user")]

def userPayloadText : List UInt8 :=
  Utf8.asBytes "\x7b\"exp\":1767226500,\"iat\":1767225600,\"sub\":\"user\"\x7d"

def userMessage : List Char :=
  "eyJhbGciOiJIUzI1NiIsInR5cCI6IkpXVCJ9.".toList ++
    "eyJleHAiOjE3NjcyMjY1MDAsImlhdCI6MTc2NzIyNTYwMCwic3ViIjoidXNlciJ9".toList

def userToken : List Char :=
  userMessage ++ ".Num8aTVvD4Pkg4lYjswF-wvQ0t5KKWwcIwXhvYWqb6M".toList

/-- `serde_json` on the two texts of the token. -/
def userSerde : Serde where
  toVec value := if value = userPayload then some userPayloadText else none
  toVecClaims _ := none
  fromSlice bytes :=
    if bytes = Utf8.asBytes (headerText "HS256") then some (headerValue "HS256")
    else if bytes = userPayloadText then some userPayload
    else none

/-- HMAC-SHA256 of the message under `test-secret-key-at-least-32-bytes-long!`. -/
def userHmac (message : List UInt8) : List UInt8 :=
  if message = textBytes userMessage then
    [54, 233, 188, 105, 53, 111, 15, 131, 228, 131, 137, 88, 142, 204, 5, 251, 11, 208, 210, 222,
      74, 41, 108, 28, 35, 5, 225, 189, 133, 170, 111, 163]
  else []

def userEncoder : JwtEncoder := .fromConfig (hmacSigner userHmac) {}

theorem userToken_decoded :
    userEncoder.encode userSerde 1767225600 userClaims = .ok userToken ∧
    (JwtDecoder.ofEncoder userEncoder).decode userSerde 1767226500 userToken =
      .ok { userClaims with exp := some 1767226500 } := by
  have hencode : userEncoder.encode userSerde 1767225600 userClaims = .ok userToken := by
    decide +kernel
  refine ⟨hencode, ?_⟩
  have hverify : ∀ message signature, userEncoder.signer.sign message = some signature →
      userEncoder.signer.verify message signature = true := by
    intro message signature hsign
    exact decide_eq_true (Option.some.inj hsign).symm
  have htoken := decode_token userSerde userEncoder hverify (by decide)
  apply htoken.1 userClaims 1767225600 1767226500 userToken
  · intro text htext
    have hpayload : userEncoder.claimsJson userSerde 1767225600 userClaims =
        some userPayloadText := by
      decide
    rw [hpayload] at htext
    cases htext
    decide
  · intro defaultExp hdefault
    cases hdefault
    decide
  · intro exp hexp
    cases hexp
    decide
  · decide
  · exact hencode
  · refine ⟨⟨1767226500, rfl, by decide⟩, ?_, ?_, ?_⟩ <;> nofun

end Modo.Sessions.Jwt
