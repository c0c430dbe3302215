import Modo.Session.Jwt.Window

/-!
# Payloads of custom flows

`encode` takes every payload that `serde_json` can serialize, and fills in `exp` by
`value["exp"] = …` on the value.  The assignment panics unless the value is an
object or `null`, and a member `exp` that is `null` counts as present.  So the
default does not reach every payload, and `encode_covers_iff` says which it reaches.
-/

namespace Modo.Sessions.Jwt

/-- What `serde_json` makes of a payload: its value, and its text. -/
structure Serialized where
  toValue : Option Json
  toVec : Option (List UInt8)

/-- Claims as a payload. -/
def Claims.serialized (serde : Serde) (claims : Claims) : Serialized where
  toValue := some claims.toValue
  toVec := serde.toVecClaims claims

/-! ## Encoding in a build -/

/-- `value[key] = member`: `null` becomes an object, and what else is not an object panics. -/
def assign (value : Json) (key : String) (member : Json) : Option Json :=
  match value with
  | .null => some (.object [(key, member)])
  | .object members => some (.object (Json.insertMember key member members))
  | _ => none

namespace JwtEncoder

/-- The value with the default for `exp`. -/
def fillExp (build : Build) (now defaultExp : ℕ) (value : Json) : Option Json :=
  if (value.get "exp").isNone then do
    let exp ← build.add now defaultExp
    assign value "exp" (.number (.posInt exp))
  else some value

/-- The token with a payload. -/
def signText (encoder : JwtEncoder) (claimsJson : List UInt8) : Except EncodeError (List Char) :=
  let header := headerText encoder.signer.algorithmName
  let headerB64 := Base64url.encode (Utf8.asBytes header)
  let payloadB64 := Base64url.encode claimsJson
  let headerPayload := headerB64 ++ '.' :: payloadB64
  match encoder.signer.sign (textBytes headerPayload) with
  | none => .error .signingFailed
  | some signature => .ok (headerPayload ++ '.' :: Base64url.encode signature)

/-- The token with the text of a payload, if there is one. -/
def signSome (encoder : JwtEncoder) : Option (List UInt8) → Except EncodeError (List Char)
  | none => .error .serializationFailed
  | some claimsJson => encoder.signText claimsJson

/-- `encode` in a build; `none` is a panic. -/
def encodeIn (build : Build) (serde : Serde) (encoder : JwtEncoder) (now : ℕ)
    (claims : Serialized) : Option (Except EncodeError (List Char)) :=
  match encoder.defaultExpiry with
  | some defaultExp =>
      match claims.toValue with
      | none => some (.error .serializationFailed)
      | some value => do
          let value ← fillExp build now defaultExp value
          return encoder.signSome (serde.toVec value)
  | none => some (encoder.signSome claims.toVec)

/-- On claims, the release build is the one that is modelled as `encode`. -/
theorem encodeIn_release (serde : Serde) (encoder : JwtEncoder) (now : ℕ) (claims : Claims) :
    encoder.encodeIn .release serde now (claims.serialized serde) =
      some (encoder.encode serde now claims) := by
  have hsign : encoder.encode serde now claims =
      encoder.signSome (encoder.claimsJson serde now claims) := by
    unfold encode signSome
    cases encoder.claimsJson serde now claims <;> rfl
  rw [hsign, encodeIn, claimsJson]
  cases hdefault : encoder.defaultExpiry with
  | none => rfl
  | some defaultExp =>
      simp only [Claims.serialized, payload, hdefault, fillExp]
      by_cases hexp : (claims.toValue.get "exp").isNone = true
      · simp only [hexp, if_true]
        rfl
      · simp only [hexp]
        rfl

end JwtEncoder

/-! ## Tokens that carry an expiry -/

/-- The token has the value as its payload. -/
def Signs (serde : Serde) (encoder : JwtEncoder) (token : List Char) (value : Json) : Prop :=
  ∃ text, serde.toVec value = some text ∧ encoder.signText text = .ok token

/-- Up to the time, the decoder accepts the token if its payload is read and passes the
other checks. -/
def AcceptedUntil (serde : Serde) (encoder : JwtEncoder) (token : List Char) (exp : ℕ) : Prop :=
  ∀ (T : Type) [DeserializeOwned T] (build : Build) (text : List UInt8) (later : ℕ) (read : Json)
    (result : T),
    encoder.signText text = .ok token → serde.fromSlice text = some read → later ≤ exp →
    (∀ nbf, (read.get "nbf").bind Json.asU64 = some nbf → nbf ≤ later) →
    JwtDecoder.finish encoder.validation read = .ok result →
      (JwtDecoder.ofEncoder encoder).decodeIn build serde later token = some (.ok result)

/-- The object sets no expiry. -/
def SetsNoExp (members : List (String × Json)) : Prop :=
  members.lookup "exp" = none ∨ members.lookup "exp" = some .null

/-- Encoding returns, fills in the default where no expiry is set, and keeps one that is. -/
structure Covers (build : Build) (serde : Serde) (encoder : JwtEncoder) (now : ℕ)
    (claims : Serialized) : Prop where
  no_panic : encoder.encodeIn build serde now claims ≠ none
  fills : ∀ members token defaultExp, claims.toValue = some (.object members) →
    SetsNoExp members → encoder.defaultExpiry = some defaultExp →
    encoder.encodeIn build serde now claims = some (.ok token) →
      (∃ value, Signs serde encoder token value ∧
        value.get "exp" = some (.number (.posInt (now + defaultExp)))) ∧
      AcceptedUntil serde encoder token (now + defaultExp)
  keeps : ∀ value exp token, claims.toValue = some value → value.get "exp" = some exp →
    exp ≠ .null → encoder.encodeIn build serde now claims = some (.ok token) →
      Signs serde encoder token value

/-- The payloads that the default covers. -/
def Covered (build : Build) (now defaultExp : ℕ) : Option Json → Prop
  | none => True
  | some .null => build = .debug → now + defaultExp < 2 ^ 64
  | some (.object members) =>
      match members.lookup "exp" with
      | none => now + defaultExp < 2 ^ 64
      | some exp => exp ≠ .null
  | some _ => False

/-- `serde_json` writes the value, as no value with another `exp`, and reads an `exp` as it
was written. -/
structure Faithful (serde : Serde) (value : Json) : Prop where
  writes : ∃ text, serde.toVec value = some text
  distinct : ∀ text other, serde.toVec value = some text → serde.toVec other = some text →
    other.get "exp" = value.get "exp"
  reads : ∀ text read exp, serde.toVec value = some text → serde.fromSlice text = some read →
    value.get "exp" = some (.number (.posInt exp)) → exp < 2 ^ 64 →
      read.get "exp" = some (.number (.posInt exp))

section Covering

variable {build : Build} {serde : Serde} {encoder : JwtEncoder} {now defaultExp : ℕ}
  {claims : Serialized}

theorem signText_eq_ok {text : List UInt8} {token : List Char}
    (hsign : encoder.signText text = .ok token) :
    ∃ signature, encoder.signer.sign (textBytes
        (Base64url.encode (Utf8.asBytes (headerText encoder.signer.algorithmName)) ++
          '.' :: Base64url.encode text)) = some signature ∧
      JwtDecoder.parts token =
        .ok (Base64url.encode (Utf8.asBytes (headerText encoder.signer.algorithmName)),
          Base64url.encode text, Base64url.encode signature) := by
  simp only [JwtEncoder.signText] at hsign
  split at hsign
  · cases hsign
  rename_i signature hsignature
  rw [Except.ok.injEq] at hsign
  refine ⟨signature, hsignature, parts_eq_ok.mpr ⟨?_, dot_notMem_encode _, dot_notMem_encode _,
    dot_notMem_encode _⟩⟩
  rw [← hsign, List.append_assoc, List.cons_append]

/-- A token has one payload. -/
theorem signText_injective {text other : List UInt8} {token : List Char}
    (htext : encoder.signText text = .ok token) (hother : encoder.signText other = .ok token) :
    text = other := by
  obtain ⟨signature, -, hparts⟩ := signText_eq_ok htext
  obtain ⟨signature', -, hparts'⟩ := signText_eq_ok hother
  rw [hparts, Except.ok.injEq, Prod.mk.injEq, Prod.mk.injEq] at hparts'
  have hdecode := congrArg Base64url.decode hparts'.2.1
  rw [Base64url.decode_encode, Base64url.decode_encode] at hdecode
  exact Except.ok.inj hdecode

/-- The matching decoder reads the payload of a token. -/
theorem readToken_of_signText
    (hverify : ∀ message signature, encoder.signer.sign message = some signature →
      encoder.signer.verify message signature = true)
    (hheader : serde.fromSlice (Utf8.asBytes (headerText encoder.signer.algorithmName)) =
      some (headerValue encoder.signer.algorithmName))
    {text : List UInt8} {token : List Char} {read : Json}
    (hsign : encoder.signText text = .ok token) (hread : serde.fromSlice text = some read) :
    (JwtDecoder.ofEncoder encoder).readToken serde token = .ok read := by
  obtain ⟨signature, hsignature, hparts⟩ := signText_eq_ok hsign
  have hcheckHeader : (JwtDecoder.ofEncoder encoder).checkHeader serde
      (Base64url.encode (Utf8.asBytes (headerText encoder.signer.algorithmName))) = .ok () :=
    checkHeader_eq_ok.mpr ⟨_, _, Base64url.decode_encode _, hheader, alg_headerValue _⟩
  have hcheckSignature : (JwtDecoder.ofEncoder encoder).checkSignature
      (Base64url.encode (Utf8.asBytes (headerText encoder.signer.algorithmName)))
      (Base64url.encode text) (Base64url.encode signature) = .ok () :=
    checkSignature_eq_ok.mpr ⟨signature, Base64url.decode_encode _, hverify _ _ hsignature⟩
  have hreadPayload : JwtDecoder.readPayload serde (Base64url.encode text) = .ok read :=
    readPayload_eq_ok.mpr ⟨text, Base64url.decode_encode _, hread⟩
  simp only [JwtDecoder.readToken, bind_eq_ok, Prod.exists]
  exact ⟨_, _, _, hparts, (), hcheckHeader, (), hcheckSignature, hreadPayload⟩

theorem Build.add_of_lt {a b : ℕ} (build : Build) (h : a + b < 2 ^ 64) :
    build.add a b = some (a + b) := by
  cases build with
  | debug => exact if_pos h
  | release => rw [Build.add, addSecs, Nat.mod_eq_of_lt h]

theorem Build.add_debug_eq_none {a b : ℕ} : Build.debug.add a b = none ↔ 2 ^ 64 ≤ a + b := by
  simp [Build.add]

theorem Build.lt_of_add {a b sum : ℕ} {build : Build} (hadd : build.add a b = some sum) :
    sum < 2 ^ 64 := by
  cases build with
  | debug =>
      rw [Build.add, Option.ite_none_right_eq_some, Option.some.injEq] at hadd
      exact hadd.2 ▸ hadd.1
  | release =>
      rw [Build.add, Option.some.injEq] at hadd
      exact hadd ▸ Nat.mod_lt _ (by decide)

theorem Signs.acceptedUntil
    (hverify : ∀ message signature, encoder.signer.sign message = some signature →
      encoder.signer.verify message signature = true)
    (hheader : serde.fromSlice (Utf8.asBytes (headerText encoder.signer.algorithmName)) =
      some (headerValue encoder.signer.algorithmName))
    (hleeway : encoder.validation.leeway = 0) {token : List Char} {value : Json} {exp : ℕ}
    (hsigns : Signs serde encoder token value) (hfaithful : Faithful serde value)
    (hexp : value.get "exp" = some (.number (.posInt exp))) (hlt : exp < 2 ^ 64) :
    AcceptedUntil serde encoder token exp := by
  intro T _ build' text later read result hsign hread hlater hnbf hresult
  obtain ⟨written, hwritten, htoken⟩ := hsigns
  obtain rfl := signText_injective hsign htoken
  have hreadExp := hfaithful.reads text read exp hwritten hread hexp hlt
  have hreadU64 : (read.get "exp").bind Json.asU64 = some exp := by rw [hreadExp]; rfl
  rw [decodeIn_eq_windowOutcome build' later (readToken_of_signText hverify hheader hsign hread)
    hreadU64 rfl]
  have hvalidation : (JwtDecoder.ofEncoder encoder).validation = encoder.validation := rfl
  have hadd : ∀ a < 2 ^ 64, build'.add a 0 = some a := fun a ha => build'.add_of_lt ha
  unfold windowOutcome
  rw [hvalidation, hleeway, hadd exp hlt, Option.bind_some,
    if_neg (Nat.not_lt.mpr hlater)]
  split
  · rw [hresult]
  · rename_i time htime
    rw [hadd later (hlater.trans_lt hlt), Option.map_some,
      if_neg (Nat.not_lt.mpr (hnbf time htime)), hresult]

end Covering

/-! ## Encoders of a configuration -/

section Configured

variable (build : Build) (serde : Serde) (hmac : List UInt8 → List UInt8)
  (config : JwtSessionsConfig) (now : ℕ) (claims : Serialized)

/-- The encoder that `from_config` makes. -/
def configured : JwtEncoder := .fromConfig (hmacSigner hmac) config

theorem configured_signText (text : List UInt8) :
    ∃ token, (configured hmac config).signText text = .ok token := ⟨_, rfl⟩

variable {build serde hmac config now claims}

/-- What encoding comes to when the value can be filled. -/
theorem encodeIn_of_fillExp {value filled : Json} (hvalue : claims.toValue = some value)
    (hfill : JwtEncoder.fillExp build now config.accessTtlSecs value = some filled) :
    (configured hmac config).encodeIn build serde now claims =
      some ((configured hmac config).signSome (serde.toVec filled)) := by
  have hdefault : (configured hmac config).defaultExpiry = some config.accessTtlSecs := rfl
  simp [JwtEncoder.encodeIn, hdefault, hvalue, hfill]

theorem encodeIn_eq_none {value : Json} (hvalue : claims.toValue = some value)
    (hfill : JwtEncoder.fillExp build now config.accessTtlSecs value = none) :
    (configured hmac config).encodeIn build serde now claims = none := by
  have hdefault : (configured hmac config).defaultExpiry = some config.accessTtlSecs := rfl
  simp [JwtEncoder.encodeIn, hdefault, hvalue, hfill]

theorem fillExp_of_get {defaultExp : ℕ} {value exp : Json} (hexp : value.get "exp" = some exp) :
    JwtEncoder.fillExp build now defaultExp value = some value := by
  simp [JwtEncoder.fillExp, hexp]

theorem fillExp_object (build : Build) (now defaultExp : ℕ) {members : List (String × Json)}
    (hexp : members.lookup "exp" = none) :
    JwtEncoder.fillExp build now defaultExp (.object members) =
      (build.add now defaultExp).map fun exp =>
        .object (Json.insertMember "exp" (.number (.posInt exp)) members) := by
  have hget : (Json.object members).get "exp" = none := hexp
  cases hadd : build.add now defaultExp <;> simp [JwtEncoder.fillExp, hget, hadd, assign]

theorem get_exp_insertMember (members : List (String × Json)) (member : Json) :
    (Json.object (Json.insertMember "exp" member members)).get "exp" = some member := by
  rw [Json.get, Json.lookup_insertMember, if_pos rfl]

/-- The token of a filled value. -/
theorem exists_token {value filled : Json} (hvalue : claims.toValue = some value)
    (hfill : JwtEncoder.fillExp build now config.accessTtlSecs value = some filled)
    (hfaithful : Faithful serde filled) :
    ∃ token, (configured hmac config).encodeIn build serde now claims = some (.ok token) ∧
      Signs serde (configured hmac config) token filled := by
  obtain ⟨text, htext⟩ := hfaithful.writes
  obtain ⟨token, htoken⟩ := configured_signText hmac config text
  refine ⟨token, ?_, text, htext, htoken⟩
  rw [encodeIn_of_fillExp hvalue hfill, htext, JwtEncoder.signSome, htoken]

/-- A token signs its value and no value with another expiry. -/
theorem Signs.get_eq {token : List Char} {value other : Json} (hfaithful : Faithful serde value)
    (hvalue : Signs serde (configured hmac config) token value)
    (hother : Signs serde (configured hmac config) token other) :
    other.get "exp" = value.get "exp" := by
  obtain ⟨text, htext, htoken⟩ := hvalue
  obtain ⟨text', htext', htoken'⟩ := hother
  obtain rfl := signText_injective htoken htoken'
  exact hfaithful.distinct text other htext htext'

theorem signs_of_encodeIn {value filled : Json} {token : List Char}
    (hvalue : claims.toValue = some value)
    (hfill : JwtEncoder.fillExp build now config.accessTtlSecs value = some filled)
    (hencode : (configured hmac config).encodeIn build serde now claims = some (.ok token)) :
    Signs serde (configured hmac config) token filled := by
  rw [encodeIn_of_fillExp hvalue hfill, Option.some.injEq] at hencode
  cases htext : serde.toVec filled with
  | none =>
      rw [htext] at hencode
      cases hencode
  | some text => exact ⟨text, htext, by rwa [htext] at hencode⟩

theorem setsExp_of_covers {members : List (String × Json)}
    (hmembers : claims.toValue = some (.object members))
    (hserde : ∀ filled,
      JwtEncoder.fillExp build now config.accessTtlSecs (.object members) = some filled →
        Faithful serde filled)
    (hcovers : Covers build serde (configured hmac config) now claims) :
    match members.lookup "exp" with
    | none => now + config.accessTtlSecs < 2 ^ 64
    | some exp => exp ≠ .null := by
  -- the token that is made is looked at: it carries the default only where there is room
  have hcarries : ∀ filled,
      JwtEncoder.fillExp build now config.accessTtlSecs (.object members) = some filled →
      SetsNoExp members →
        filled.get "exp" = some (.number (.posInt (now + config.accessTtlSecs))) := by
    intro filled hfill hno
    obtain ⟨token, hencode, hsigns⟩ : ∃ token,
        (configured hmac config).encodeIn build serde now claims = some (.ok token) ∧
          Signs serde (configured hmac config) token filled :=
      exists_token hmembers hfill (hserde filled hfill)
    obtain ⟨⟨other, hother, hget⟩, -⟩ := hcovers.fills members token _ hmembers hno rfl hencode
    rw [← hget, Signs.get_eq (hserde filled hfill) hsigns hother]
  cases hexp : members.lookup "exp" with
  | none =>
      cases hadd : build.add now config.accessTtlSecs with
      | none =>
          refine absurd (encodeIn_eq_none hmembers ?_) hcovers.no_panic
          rw [fillExp_object _ _ _ hexp, hadd, Option.map_none]
      | some sum =>
          have hfill := fillExp_object build now config.accessTtlSecs hexp
          rw [hadd, Option.map_some] at hfill
          have hget := hcarries _ hfill (.inl hexp)
          rw [get_exp_insertMember, Option.some.injEq, Json.number.injEq,
            Number.posInt.injEq] at hget
          exact hget ▸ Build.lt_of_add hadd
  | some exp =>
      rintro rfl
      have hget := hcarries _ (fillExp_of_get hexp) (.inr hexp)
      rw [Json.get, hexp, Option.some.injEq] at hget
      cases hget

theorem covered_of_covers
    (hserde : ∀ value filled, claims.toValue = some value →
      JwtEncoder.fillExp build now config.accessTtlSecs value = some filled →
        Faithful serde filled)
    (hcovers : Covers build serde (configured hmac config) now claims) :
    Covered build now config.accessTtlSecs claims.toValue := by
  have hpanics : ∀ value, claims.toValue = some value →
      JwtEncoder.fillExp build now config.accessTtlSecs value ≠ none :=
    fun value hvalue hfill => hcovers.no_panic (encodeIn_eq_none hvalue hfill)
  have hassign : ∀ value, claims.toValue = some value → value.get "exp" = none →
      (∀ member, assign value "exp" member = none) → False := by
    intro value hvalue hexp hnone
    refine hpanics value hvalue ?_
    cases hadd : build.add now config.accessTtlSecs <;> simp [JwtEncoder.fillExp, hexp, hadd, hnone]
  cases hvalue : claims.toValue with
  | none => trivial
  | some value =>
      cases value with
      | null =>
          rintro rfl
          by_contra hsum
          refine hpanics .null hvalue ?_
          have hget : Json.null.get "exp" = none := rfl
          simp [JwtEncoder.fillExp, hget, Build.add_debug_eq_none.mpr (Nat.le_of_not_lt hsum)]
      | object members =>
          exact setsExp_of_covers hvalue (fun filled => hserde _ filled hvalue) hcovers
      | bool value => exact hassign _ hvalue rfl fun _ => rfl
      | number value => exact hassign _ hvalue rfl fun _ => rfl
      | string value => exact hassign _ hvalue rfl fun _ => rfl
      | array items => exact hassign _ hvalue rfl fun _ => rfl

theorem exists_filled_of_covered {defaultExp : ℕ} {value : Json}
    (hcovered : Covered build now defaultExp (some value)) :
    ∃ filled, JwtEncoder.fillExp build now defaultExp value = some filled := by
  cases value with
  | null =>
      have hget : Json.null.get "exp" = none := rfl
      cases hadd : build.add now defaultExp with
      | some sum =>
          refine ⟨.object [("exp", .number (.posInt sum))], ?_⟩
          simp [JwtEncoder.fillExp, hget, hadd, assign]
      | none =>
          cases build with
          | debug => exact absurd (hcovered rfl) (Nat.not_lt.mpr (Build.add_debug_eq_none.mp hadd))
          | release => cases hadd
  | object members =>
      cases hexp : members.lookup "exp" with
      | some exp => exact ⟨_, fillExp_of_get hexp⟩
      | none =>
          have hlt : now + defaultExp < 2 ^ 64 := by simpa only [Covered, hexp] using hcovered
          rw [fillExp_object _ _ _ hexp, build.add_of_lt hlt]
          exact ⟨_, rfl⟩
  | bool value => exact hcovered.elim
  | number value => exact hcovered.elim
  | string value => exact hcovered.elim
  | array items => exact hcovered.elim

theorem covers_of_covered
    (hheader : serde.fromSlice (Utf8.asBytes (headerText "HS256")) = some (headerValue "HS256"))
    (hserde : ∀ value filled, claims.toValue = some value →
      JwtEncoder.fillExp build now config.accessTtlSecs value = some filled →
        Faithful serde filled)
    (hcovered : Covered build now config.accessTtlSecs claims.toValue) :
    Covers build serde (configured hmac config) now claims := by
  refine ⟨?_, ?_, ?_⟩
  · cases hvalue : claims.toValue with
    | none =>
        have hdefault : (configured hmac config).defaultExpiry = some config.accessTtlSecs := rfl
        simp [JwtEncoder.encodeIn, hdefault, hvalue]
    | some value =>
        rw [hvalue] at hcovered
        obtain ⟨filled, hfill⟩ := exists_filled_of_covered hcovered
        rw [encodeIn_of_fillExp hvalue hfill]
        exact Option.some_ne_none _
  · intro members token defaultExp hmembers hno hdefault hencode
    obtain rfl := Option.some.inj hdefault
    rw [hmembers, Covered] at hcovered
    -- an expiry that is null is not covered, so there is none
    have hexp : members.lookup "exp" = none := by
      rcases hno with hno | hno
      · exact hno
      · rw [hno] at hcovered
        exact absurd rfl hcovered
    rw [hexp] at hcovered
    have hfill := fillExp_object build now config.accessTtlSecs hexp
    rw [build.add_of_lt hcovered, Option.map_some] at hfill
    have hsigns := signs_of_encodeIn hmembers hfill hencode
    have hget := get_exp_insertMember members
      (.number (.posInt (now + config.accessTtlSecs)))
    refine ⟨⟨_, hsigns, hget⟩, ?_⟩
    have hverify : ∀ message signature, (configured hmac config).signer.sign message =
        some signature → (configured hmac config).signer.verify message signature = true :=
      fun message signature hsign => decide_eq_true (Option.some.inj hsign).symm
    exact hsigns.acceptedUntil hverify hheader rfl (hserde _ _ hmembers hfill) hget hcovered
  · intro value exp token hvalue hget hne hencode
    exact signs_of_encodeIn hvalue (fillExp_of_get hget) hencode

end Configured

/--
The default expiry of a configured encoder covers a payload in a build if and only if the
payload does not serialize, is an object without an expiry while the default fits into the
numbers, is an object with an expiry that is not `null`, or is `null` itself (in a debug
build, while the default fits).
-/
theorem encode_covers_iff (build : Build) (serde : Serde) (hmac : List UInt8 → List UInt8)
    (config : JwtSessionsConfig) (now : ℕ) (claims : Serialized)
    (hheader : serde.fromSlice (Utf8.asBytes (headerText "HS256")) = some (headerValue "HS256"))
    (hserde : ∀ value filled, claims.toValue = some value →
      JwtEncoder.fillExp build now config.accessTtlSecs value = some filled →
        Faithful serde filled) :
    Covers build serde (.fromConfig (hmacSigner hmac) config) now claims ↔
      Covered build now config.accessTtlSecs claims.toValue :=
  ⟨covered_of_covers hserde, covers_of_covered hheader hserde⟩

/-! ## Payloads that are covered, and that are not -/

theorem userPayload_faithful : Faithful userSerde userPayload := by
  have hwrite : userSerde.toVec userPayload = some userPayloadText := by simp [userSerde]
  have hread : userSerde.fromSlice userPayloadText = some userPayload := by decide
  refine ⟨⟨_, hwrite⟩, ?_, ?_⟩
  · intro text other _ hother
    by_cases heq : other = userPayload
    · rw [heq]
    · simp [userSerde, heq] at hother
  · intro text read exp htext hreads hexp _
    obtain rfl := Option.some.inj (hwrite.symm.trans htext)
    obtain rfl := Option.some.inj (hread.symm.trans hreads)
    exact hexp

/-- Claims as the service makes them, with no expiry. -/
theorem userClaims_covered :
    Covers .debug userSerde (.fromConfig (hmacSigner userHmac) {}) 1767225600
      (userClaims.serialized userSerde) := by
  have hfilled : JwtEncoder.fillExp .debug 1767225600 900 userClaims.toValue =
      some userPayload := by
    decide
  refine (encode_covers_iff .debug userSerde userHmac {} 1767225600
    (userClaims.serialized userSerde) (by decide) ?_).mpr ?_
  · rintro value filled hvalue hfill
    obtain rfl : userClaims.toValue = value := Option.some.inj hvalue
    obtain rfl : userPayload = filled := Option.some.inj (hfilled.symm.trans hfill)
    exact userPayload_faithful
  · have hlt : 1767225600 + 900 < 2 ^ 64 := by decide
    exact hlt

/-- A list of roles. -/
def rolesPayload : Serialized where
  toValue := some (.array [.string "admin"])
  toVec := some (Utf8.asBytes "[\"admin\"]")

/-- `exp` is an `Option` that is not set. -/
def unsetValue : Json := .object [("exp", .null), ("sub", .string "user")]

def unsetText : List UInt8 := Utf8.asBytes "\x7b\"exp\":null,\"sub\":\"user\"\x7d"

def unsetPayload : Serialized where
  toValue := some unsetValue
  toVec := some unsetText

def unsetMessage : List Char :=
  "eyJhbGciOiJIUzI1NiIsInR5cCI6IkpXVCJ9".toList ++
    ".eyJleHAiOm51bGwsInN1YiI6InVzZXIifQ".toList

def unsetToken : List Char :=
  unsetMessage ++ ".VuTukgMjctSfdEyWhXF_gwlhTS_Q0F6EYEZsWfxypgA".toList

/-- `serde_json` on the texts of the token. -/
def unsetSerde : Serde where
  toVec value := if value = unsetValue then some unsetText else none
  toVecClaims _ := none
  fromSlice bytes :=
    if bytes = Utf8.asBytes (headerText "HS256") then some (headerValue "HS256")
    else if bytes = unsetText then some unsetValue
    else none

/-- HMAC-SHA256 of the message under `test-secret-key-at-least-32-bytes-long!`. -/
def unsetHmac (message : List UInt8) : List UInt8 :=
  if message = textBytes unsetMessage then
    [86, 228, 238, 146, 3, 35, 114, 212, 159, 116, 76, 150, 133, 113, 127, 131, 9, 97, 77, 47, 208,
      208, 94, 132, 96, 70, 108, 89, 252, 114, 166, 0]
  else []

/-- Encoding the list panics; the unset expiry is signed as `null`, and the matching decoder
rejects the token at once. -/
theorem default_missed :
    (configured unsetHmac {}).encodeIn .release unsetSerde 1767225600 rolesPayload = none ∧
      (configured unsetHmac {}).encodeIn .release unsetSerde 1767225600 unsetPayload =
        some (.ok unsetToken) ∧
      (JwtDecoder.ofEncoder (configured unsetHmac {})).decodeIn (T := Claims) .release unsetSerde
        1767225600 unsetToken = some (.error .expired) ∧
      ¬ Covers .release unsetSerde (configured unsetHmac {}) 1767225600 rolesPayload ∧
      ¬ Covers .release unsetSerde (configured unsetHmac {}) 1767225600 unsetPayload := by
  have hpanics : (configured unsetHmac {}).encodeIn .release unsetSerde 1767225600 rolesPayload =
      none := rfl
  have hencode : (configured unsetHmac {}).encodeIn .release unsetSerde 1767225600 unsetPayload =
      some (.ok unsetToken) := by
    decide
  have hread : (JwtDecoder.ofEncoder (configured unsetHmac {})).readToken unsetSerde unsetToken =
      .ok unsetValue := by
    decide
  have hexp : (unsetValue.get "exp").bind Json.asU64 = none := rfl
  have hdecode : (JwtDecoder.ofEncoder (configured unsetHmac {})).decodeIn (T := Claims) .release
      unsetSerde 1767225600 unsetToken = some (.error .expired) := by
    simp only [JwtDecoder.decodeIn, hread, JwtDecoder.checkWindow, hexp]
    rfl
  refine ⟨hpanics, hencode, hdecode, fun hcovers => hcovers.no_panic hpanics, fun hcovers => ?_⟩
  have hset := hcovers.fills [("exp", .null), ("sub", .string "user")] unsetToken 900 rfl
    (.inr rfl) rfl hencode
  have hclaims : JwtDecoder.finish (configured unsetHmac {}).validation unsetValue =
      .ok (⟨none, some "user", none, none, none, none, none⟩ : Claims) := by
    decide
  have hnbf : ∀ nbf, (unsetValue.get "nbf").bind Json.asU64 = some nbf → nbf ≤ 1767225600 := by
    intro nbf hnbf
    cases hnbf
  have haccepted := hset.2 Claims .release unsetText 1767225600 unsetValue _ (by decide)
    (by decide) (by decide) hnbf hclaims
  cases hdecode.symm.trans haccepted

end Modo.Sessions.Jwt
