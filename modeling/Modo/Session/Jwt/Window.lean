import Modo.Session.Jwt.Codec

/-!
# The time window of a token

`decode` compares the time with `exp + leeway` and `now + leeway`, sums of `u64`.
A debug build panics where such a sum overflows and a release build wraps around.
The window is exact in a build exactly when the sums that are computed fit into
64 bits, or wrap around to a number that compares as the sum (`decode_exact_iff`).
-/

namespace Modo.Sessions.Jwt

/-- How the program is built. -/
inductive Build where
  | debug
  | release
  deriving DecidableEq

/-- `a + b` of `u64`; `none` is a panic. -/
def Build.add (build : Build) (a b : ℕ) : Option ℕ :=
  match build with
  | .debug => if a + b < 2 ^ 64 then some (a + b) else none
  | .release => some (addSecs a b)

/-- The sum compares with `bound` as it does in natural numbers. -/
def Build.Compares (build : Build) (a b bound : ℕ) : Prop :=
  a + b < 2 ^ 64 ∨ build = .release ∧ bound + 2 ^ 64 ≤ a + b

theorem Build.compares_iff {a b bound : ℕ} (build : Build) (ha : a < 2 ^ 64) (hb : b < 2 ^ 64)
    (hbound : bound < 2 ^ 64) :
    build.Compares a b bound ↔
      ∃ sum, build.add a b = some sum ∧ (sum < bound ↔ a + b < bound) := by
  cases build with
  | debug => simp [Compares, add]
  | release =>
      simp only [Compares, add, addSecs, Option.some.injEq, exists_eq_left', true_and]
      by_cases hsum : a + b < 2 ^ 64
      · rw [Nat.mod_eq_of_lt hsum]
        exact iff_of_true (.inl hsum) Iff.rfl
      · have hwrap : (a + b) % 2 ^ 64 = a + b - 2 ^ 64 := by omega
        rw [hwrap]
        omega

namespace JwtDecoder

/-! ## Decoding in a build -/

/-- The checks of the parts, the header and the signature, and the payload. -/
def readToken (serde : Serde) (decoder : JwtDecoder) (token : List Char) :
    Except JwtError Json := do
  let (headerB64, payloadB64, signatureB64) ← parts token
  decoder.checkHeader serde headerB64
  decoder.checkSignature headerB64 payloadB64 signatureB64
  readPayload serde payloadB64

/-- The check of `nbf`. -/
def checkNotBefore (build : Build) (leeway now : ℕ) (payload : Json) :
    Option (Except JwtError Unit) :=
  match (payload.get "nbf").bind Json.asU64 with
  | none => some (.ok ())
  | some nbf => do
      let latest ← build.add now leeway
      return ensure (decide (nbf ≤ latest)) .notYetValid

/-- The checks of `exp` and `nbf`. -/
def checkWindow (build : Build) (leeway now : ℕ) (payload : Json) :
    Option (Except JwtError Unit) :=
  match (payload.get "exp").bind Json.asU64 with
  | none => some (.error .expired)
  | some exp => do
      let last ← build.add exp leeway
      if last < now then return .error .expired
      checkNotBefore build leeway now payload

/-- The checks of `iss` and `aud`. -/
def checkRequired (validation : ValidationConfig) (payload : Json) : Except JwtError Unit := do
  ensure (validation.requireIssuer.all fun required =>
    decide ((payload.get "iss").bind Json.asStr = some required)) .invalidIssuer
  ensure (validation.requireAudience.all fun required =>
    decide ((payload.get "aud").bind Json.asStr = some required)) .invalidAudience

/-- What follows once the window is checked. -/
def finish {T : Type} [DeserializeOwned T] (validation : ValidationConfig) (payload : Json) :
    Except JwtError T := do
  checkRequired validation payload
  okOr (DeserializeOwned.fromValue payload) .deserializationFailed

/-- `decode` in a build; `none` is a panic. -/
def decodeIn {T : Type} [DeserializeOwned T] (build : Build) (serde : Serde)
    (decoder : JwtDecoder) (now : ℕ) (token : List Char) : Option (Except JwtError T) :=
  match decoder.readToken serde token with
  | .error error => some (.error error)
  | .ok payload => do
      match ← checkWindow build decoder.validation.leeway now payload with
      | .error error => return .error error
      | .ok () => return finish decoder.validation payload

/-- The checks of `exp` and `nbf` where sums wrap around. -/
def checkWrapped (leeway now : ℕ) (payload : Json) : Except JwtError Unit := do
  let exp ← okOr ((payload.get "exp").bind Json.asU64) .expired
  ensure (decide (now ≤ addSecs exp leeway)) .expired
  ensure (((payload.get "nbf").bind Json.asU64).all fun nbf =>
    decide (nbf ≤ addSecs now leeway)) .notYetValid

theorem checkWindow_release (leeway now : ℕ) (payload : Json) :
    checkWindow .release leeway now payload = some (checkWrapped leeway now payload) := by
  unfold checkWindow checkNotBefore checkWrapped
  cases (payload.get "exp").bind Json.asU64 with
  | none => rfl
  | some exp =>
      by_cases hlast : addSecs exp leeway < now
      · simp [okOr, ensure, Build.add, hlast, Nat.not_le.mpr hlast, bind, Except.bind]
      · have hle := Nat.le_of_not_lt hlast
        cases (payload.get "nbf").bind Json.asU64 with
        | none => simp [okOr, ensure, Build.add, hlast, hle, bind, Except.bind]
        | some nbf => simp [okOr, ensure, Build.add, hlast, hle, bind, Except.bind]

theorem checkClaims_eq_bind (validation : ValidationConfig) (now : ℕ) (payload : Json) :
    checkClaims validation now payload =
      checkWrapped validation.leeway now payload >>= fun _ => checkRequired validation payload := by
  simp only [checkClaims, checkWrapped, checkRequired, bind_assoc]

theorem decode_eq_bind {T : Type} [DeserializeOwned T] (serde : Serde) (decoder : JwtDecoder)
    (now : ℕ) (token : List Char) :
    decoder.decode (T := T) serde now token =
      decoder.readToken serde token >>= fun payload =>
        checkWrapped decoder.validation.leeway now payload >>= fun _ =>
          finish decoder.validation payload := by
  simp only [decode, readToken, checkClaims_eq_bind, finish, bind_assoc]

/-- The release build is the one that is modelled as `decode`. -/
theorem decodeIn_release {T : Type} [DeserializeOwned T] (serde : Serde) (decoder : JwtDecoder)
    (now : ℕ) (token : List Char) :
    decoder.decodeIn (T := T) .release serde now token = some (decoder.decode serde now token) := by
  rw [decode_eq_bind, decodeIn]
  cases decoder.readToken serde token with
  | error error => rfl
  | ok payload =>
      simp only [checkWindow_release]
      cases hwindow : checkWrapped decoder.validation.leeway now payload with
      | error error => simp [bind, Except.bind, hwindow]
      | ok done => simp [bind, Except.bind, hwindow]

end JwtDecoder

/-! ## The window in exact arithmetic -/

/-- The outcome of `decode` on a token with these times. -/
structure Exact {T : Type} (outcome : Option (Except JwtError T)) (exp : ℕ) (nbf : Option ℕ)
    (leeway now : ℕ) : Prop where
  no_panic : outcome ≠ none
  expired : outcome = some (.error .expired) ↔ exp + leeway < now
  notYetValid : outcome = some (.error .notYetValid) ↔
    now ≤ exp + leeway ∧ ∃ time, nbf = some time ∧ now + leeway < time

/-- The comparisons that are made come out as in natural numbers. -/
def WindowCompares (build : Build) (exp : ℕ) (nbf : Option ℕ) (leeway now : ℕ) : Prop :=
  build.Compares exp leeway now ∧
    (now ≤ exp + leeway → ∀ time, nbf = some time → build.Compares now leeway time)

/-- The outcome of the checks of `exp` and `nbf`, followed by `rest`. -/
def windowOutcome {T : Type} (build : Build) (exp : ℕ) (nbf : Option ℕ) (leeway now : ℕ)
    (rest : Except JwtError T) : Option (Except JwtError T) :=
  (build.add exp leeway).bind fun last =>
    if last < now then some (.error .expired)
    else
      match nbf with
      | none => some rest
      | some time => (build.add now leeway).map fun latest =>
          if latest < time then .error .notYetValid else rest

section Exactness

theorem bind_eq_error {α β : Type} {x : Except JwtError α} {f : α → Except JwtError β}
    {error : JwtError} :
    (x >>= f) = .error error ↔ x = .error error ∨ ∃ a, x = .ok a ∧ f a = .error error := by
  cases x <;> simp [bind, Except.bind]

theorem okOr_eq_error {α : Type} {value : Option α} {error other : JwtError} :
    okOr value error = .error other ↔ value = none ∧ error = other := by
  cases value <;> simp [okOr]

theorem ensure_eq_error {condition : Bool} {error other : JwtError} :
    ensure condition error = .error other ↔ condition = false ∧ error = other := by
  cases condition <;> simp [ensure]

/-- What follows the checks of `exp` and `nbf` does not report a time. -/
theorem finish_ne_error {T : Type} [DeserializeOwned T] (validation : ValidationConfig)
    (payload : Json) :
    JwtDecoder.finish (T := T) validation payload ≠ .error .expired ∧
      JwtDecoder.finish (T := T) validation payload ≠ .error .notYetValid := by
  simp [JwtDecoder.finish, JwtDecoder.checkRequired, bind_eq_error, okOr_eq_error, ensure_eq_error]

theorem decodeIn_eq_windowOutcome {T : Type} [DeserializeOwned T] (build : Build) {serde : Serde}
    {decoder : JwtDecoder} (now : ℕ) {token : List Char} {payload : Json} {exp : ℕ}
    {nbf : Option ℕ} (hread : decoder.readToken serde token = .ok payload)
    (hexp : (payload.get "exp").bind Json.asU64 = some exp)
    (hnbf : (payload.get "nbf").bind Json.asU64 = nbf) :
    decoder.decodeIn (T := T) build serde now token =
      windowOutcome build exp nbf decoder.validation.leeway now
        (JwtDecoder.finish decoder.validation payload) := by
  simp only [JwtDecoder.decodeIn, hread, JwtDecoder.checkWindow, hexp, windowOutcome]
  cases build.add exp decoder.validation.leeway with
  | none => rfl
  | some last =>
      by_cases hlast : last < now
      · simp [hlast]
      · cases nbf with
        | none => simp [hlast, JwtDecoder.checkNotBefore, hnbf]
        | some time =>
            cases hadd : build.add now decoder.validation.leeway with
            | none => simp [hlast, JwtDecoder.checkNotBefore, hnbf, hadd]
            | some latest =>
                by_cases htime : latest < time
                · simp [hlast, JwtDecoder.checkNotBefore, hnbf, hadd, htime, ensure,
                    Nat.not_le.mpr htime]
                · simp [hlast, JwtDecoder.checkNotBefore, hnbf, hadd, htime, ensure,
                    Nat.le_of_not_lt htime]

variable {T : Type} {build : Build} {exp leeway now : ℕ} {nbf : Option ℕ}
  {rest : Except JwtError T}

/-- The first sum of an exact window compares with the time as in natural numbers. -/
theorem Exact.exists_last
    (hexact : Exact (windowOutcome build exp nbf leeway now rest) exp nbf leeway now)
    (hrest : rest ≠ .error .expired) :
    ∃ last, build.add exp leeway = some last ∧ (last < now ↔ exp + leeway < now) := by
  cases hadd : build.add exp leeway with
  | none => exact absurd (by simp [windowOutcome, hadd]) hexact.no_panic
  | some last =>
      refine ⟨last, rfl, ?_⟩
      rw [← hexact.expired]
      by_cases hlast : last < now
      · simp [windowOutcome, hadd, hlast]
      · cases nbf with
        | none => simp [windowOutcome, hadd, hlast, hrest]
        | some time =>
            have hne : windowOutcome build exp (some time) leeway now rest ≠
                some (.error .expired) := by
              simp only [windowOutcome, hadd, Option.bind_some, if_neg hlast, ne_eq,
                Option.map_eq_some_iff, not_exists, not_and]
              intro latest _
              split
              · exact fun h => by cases h
              · exact hrest
            exact iff_of_false hlast hne

/-- The second sum compares, if it is computed. -/
theorem Exact.exists_latest {time : ℕ} (hexact :
      Exact (windowOutcome build exp (some time) leeway now rest) exp (some time) leeway now)
    (hrest : rest ≠ .error .notYetValid) {last : ℕ} (hadd : build.add exp leeway = some last)
    (hlast : ¬ last < now) (hle : now ≤ exp + leeway) :
    ∃ latest, build.add now leeway = some latest ∧ (latest < time ↔ now + leeway < time) := by
  have houtcome : windowOutcome build exp (some time) leeway now rest =
      (build.add now leeway).map fun latest =>
        if latest < time then .error .notYetValid else rest := by
    simp [windowOutcome, hadd, hlast]
  rw [houtcome] at hexact
  cases hsum : build.add now leeway with
  | none => exact absurd (by rw [hsum, Option.map_none]) hexact.no_panic
  | some latest =>
      refine ⟨latest, rfl, ?_⟩
      have hnotYetValid := hexact.notYetValid
      rw [hsum, Option.map_some] at hnotYetValid
      by_cases htime : latest < time
      · simpa [htime, hle] using hnotYetValid
      · simpa [htime, hle, hrest] using hnotYetValid

theorem exact_windowOutcome (hexpired : rest ≠ .error .expired)
    (hnotYetValid : rest ≠ .error .notYetValid) {last : ℕ} (hadd : build.add exp leeway = some last)
    (hlast : last < now ↔ exp + leeway < now)
    (hlatest : now ≤ exp + leeway → ∀ time, nbf = some time →
      ∃ latest, build.add now leeway = some latest ∧ (latest < time ↔ now + leeway < time)) :
    Exact (windowOutcome build exp nbf leeway now rest) exp nbf leeway now := by
  by_cases hnow : exp + leeway < now
  · have houtcome : windowOutcome build exp nbf leeway now rest = some (.error .expired) := by
      simp [windowOutcome, hadd, hlast.mpr hnow]
    rw [houtcome]
    exact ⟨Option.some_ne_none _, by simp [hnow], by simp [Nat.not_le.mpr hnow]⟩
  · have hle := Nat.le_of_not_lt hnow
    cases nbf with
    | none =>
        have houtcome : windowOutcome build exp none leeway now rest = some rest := by
          simp [windowOutcome, hadd, hlast, hnow]
        rw [houtcome]
        exact ⟨Option.some_ne_none _, by simp [hnow, hexpired], by simp [hnotYetValid]⟩
    | some time =>
        obtain ⟨latest, hsum, htime⟩ := hlatest hle time rfl
        have houtcome : windowOutcome build exp (some time) leeway now rest =
            some (if latest < time then .error .notYetValid else rest) := by
          simp [windowOutcome, hadd, hlast, hnow, hsum]
        rw [houtcome]
        by_cases hbefore : latest < time
        · exact ⟨Option.some_ne_none _, by simp [hbefore, hnow], by simp [hbefore, hle, ← htime]⟩
        · exact ⟨Option.some_ne_none _, by simp [hbefore, hnow, hexpired],
            by simp [hbefore, hle, ← htime, hnotYetValid]⟩

end Exactness

/--
On a token that is read, with an expiry and perhaps an `nbf`, the outcome of `decode` in a
build is the exact one if and only if its comparisons come out as in natural numbers.
-/
theorem decode_exact_iff {T : Type} [DeserializeOwned T] (build : Build) (serde : Serde)
    (decoder : JwtDecoder) (now : ℕ) (token : List Char) (payload : Json) (exp : ℕ)
    (nbf : Option ℕ) (hread : decoder.readToken serde token = .ok payload)
    (hexp : (payload.get "exp").bind Json.asU64 = some exp)
    (hnbf : (payload.get "nbf").bind Json.asU64 = nbf)
    (hexp_lt : exp < 2 ^ 64) (hnbf_lt : ∀ time, nbf = some time → time < 2 ^ 64)
    (hleeway_lt : decoder.validation.leeway < 2 ^ 64) (hnow_lt : now < 2 ^ 64) :
    Exact (decoder.decodeIn (T := T) build serde now token) exp nbf
        decoder.validation.leeway now ↔
      WindowCompares build exp nbf decoder.validation.leeway now := by
  have hfinish := finish_ne_error (T := T) decoder.validation payload
  have hfirst := build.compares_iff hexp_lt hleeway_lt hnow_lt
  rw [decodeIn_eq_windowOutcome build now hread hexp hnbf, WindowCompares, hfirst]
  constructor
  · intro hexact
    obtain ⟨last, hadd, hlast⟩ := hexact.exists_last hfinish.1
    refine ⟨⟨last, hadd, hlast⟩, fun hle time htime => ?_⟩
    subst htime
    rw [build.compares_iff hnow_lt hleeway_lt (hnbf_lt time rfl)]
    exact hexact.exists_latest hfinish.2 hadd (mt hlast.mp (Nat.not_lt.mpr hle)) hle
  · rintro ⟨⟨last, hadd, hlast⟩, hlatest⟩
    refine exact_windowOutcome hfinish.1 hfinish.2 hadd hlast fun hle time htime => ?_
    rw [← build.compares_iff hnow_lt hleeway_lt (hnbf_lt time htime)]
    exact hlatest hle time htime

/-! ## An expiry near the end -/

/-- The largest expiry. -/
def endlessPayload : Json := .object [("exp", .number (.posInt 18446744073709551615))]

def endlessPayloadText : List UInt8 := Utf8.asBytes "\x7b\"exp\":18446744073709551615\x7d"

def endlessMessage : List Char :=
  "eyJhbGciOiJIUzI1NiIsInR5cCI6IkpXVCJ9.eyJleHAiOjE4NDQ2NzQ0MDczNzA5NTUxNjE1fQ".toList

def endlessToken : List Char :=
  endlessMessage ++ ".8WXpar00nK8rpoloLUJol7OMtXrpUtt1OzaFWYbYI3g".toList

/-- `serde_json` on the two texts of the token. -/
def endlessSerde : Serde where
  toVec value := if value = endlessPayload then some endlessPayloadText else none
  toVecClaims _ := none
  fromSlice bytes :=
    if bytes = Utf8.asBytes (headerText "HS256") then some (headerValue "HS256")
    else if bytes = endlessPayloadText then some endlessPayload
    else none

/-- HMAC-SHA256 of the message under `test-secret-key-at-least-32-bytes-long!`. -/
def endlessHmac (message : List UInt8) : List UInt8 :=
  if message = textBytes endlessMessage then
    [241, 101, 233, 106, 189, 52, 156, 175, 43, 166, 137, 104, 45, 66, 104, 151, 179, 140, 181,
      122, 233, 82, 219, 117, 59, 54, 133, 89, 134, 216, 35, 120]
  else []

/-- A decoder that allows some seconds of clock skew. -/
def skewDecoder (leeway : ℕ) : JwtDecoder where
  verifier := (hmacSigner endlessHmac).toTokenVerifier
  validation := { leeway }

theorem readToken_endlessToken (leeway : ℕ) :
    (skewDecoder leeway).readToken endlessSerde endlessToken = .ok endlessPayload := by
  have hzero : (skewDecoder 0).readToken endlessSerde endlessToken = .ok endlessPayload := by
    decide +kernel
  exact hzero

/-- Without a leeway the token is accepted, as it should be. -/
theorem endlessToken_exact :
    Exact ((skewDecoder 0).decodeIn (T := Claims) .debug endlessSerde 1767225600 endlessToken)
      18446744073709551615 none 0 1767225600 :=
  (decode_exact_iff .debug endlessSerde (skewDecoder 0) 1767225600 endlessToken endlessPayload
    18446744073709551615 none (readToken_endlessToken 0) rfl rfl (by decide) (by simp)
    (by decide) (by decide)).mpr ⟨.inl (by decide), by simp⟩

/-- With one it is not: a debug build panics, a release build rejects it as expired. -/
theorem endlessToken_rejected :
    (skewDecoder 60).readToken endlessSerde endlessToken = .ok endlessPayload ∧
      (skewDecoder 60).decodeIn (T := Claims) .debug endlessSerde 1767225600 endlessToken = none ∧
      (skewDecoder 60).decodeIn (T := Claims) .release endlessSerde 1767225600 endlessToken =
        some (.error .expired) ∧
      ¬ 18446744073709551615 + 60 < 1767225600 ∧
      ¬ Exact ((skewDecoder 60).decodeIn (T := Claims) .debug endlessSerde 1767225600 endlessToken)
        18446744073709551615 none 60 1767225600 ∧
      ¬ Exact
        ((skewDecoder 60).decodeIn (T := Claims) .release endlessSerde 1767225600 endlessToken)
        18446744073709551615 none 60 1767225600 := by
  have hread := readToken_endlessToken 60
  have hdebug : (skewDecoder 60).decodeIn (T := Claims) .debug endlessSerde 1767225600
      endlessToken = none := by
    rw [decodeIn_eq_windowOutcome .debug 1767225600 hread rfl rfl]
    rfl
  have hrelease : (skewDecoder 60).decodeIn (T := Claims) .release endlessSerde 1767225600
      endlessToken = some (.error .expired) := by
    rw [decodeIn_eq_windowOutcome .release 1767225600 hread rfl rfl]
    rfl
  refine ⟨hread, hdebug, hrelease, by decide, fun h => h.no_panic hdebug, fun h => ?_⟩
  exact absurd (h.expired.mp hrelease) (by decide)

end Modo.Sessions.Jwt
