import Modo.Db.Value
import Modo.Http.Cookies
import Modo.Lib.Base64

/-!
# Webhook signatures

`sign_headers` signs the content `id.timestamp.body` with every secret and joins the
entries `v1,<signature>` with spaces; `verify_headers` tries every entry under every secret.

HMAC-SHA256 and the base64 crate are parameters.  `verifyHeaders_eq_ok_iff` says what is
accepted, and that what was signed is accepted follows from it.
-/

namespace Modo.Webhook

open Http

/-- The `STANDARD` engine of the base64 crate. -/
structure Base64Engine where
  encode : List UInt8 → List Char
  decode : List Char → Option (List UInt8)

/-- What the crate documents of the engine: texts are read back, only canonical texts are
read, and they are of the standard alphabet. -/
structure Base64Engine.RoundTrips (base64 : Base64Engine) : Prop where
  decode_encode : ∀ bytes, base64.decode (base64.encode bytes) = some bytes
  eq_encode : ∀ {text bytes}, base64.decode text = some bytes → text = base64.encode bytes
  isBase64_of_mem : ∀ {bytes c}, c ∈ base64.encode bytes → isBase64 c = true

/-- `WebhookSecret`. -/
structure WebhookSecret where
  key : List UInt8
  deriving DecidableEq

/-- `SignedHeaders`. -/
structure SignedHeaders where
  webhookId : List Char
  webhookTimestamp : Int64
  webhookSignature : List Char

/-- A timestamp as a text. -/
def timestampText (timestamp : Int64) : List Char := timestamp.toInt.repr.toList

/-- `build_signed_content`. -/
def buildSignedContent (id : List Char) (timestamp : Int64) (body : List UInt8) : List UInt8 :=
  ofText (id ++ '.' :: (timestampText timestamp ++ ['.'])) ++ body

/-- `header_str`. -/
def headerStr (headers : HeaderMap) (name : String) : Except String (List Char) :=
  match headers.get name with
  | none => .error ("missing " ++ name ++ " header")
  | some value =>
      match toStr value with
      | none => .error ("invalid " ++ name ++ " header encoding")
      | some text => .ok text

/-- What stands before a signature of this version. -/
def version : List Char := ['v', '1', ',']

section Signature

variable (hmac : List UInt8 → List UInt8 → List UInt8) (base64 : Base64Engine)

/-- `sign`. -/
def sign (secret : WebhookSecret) (content : List UInt8) : List Char :=
  base64.encode (hmac secret.key content)

/-- `verify`. -/
def verify (secret : WebhookSecret) (content : List UInt8) (signature : List Char) : Bool :=
  match base64.decode signature with
  | none => false
  | some bytes => decide (hmac secret.key content = bytes)

/-- `sign_headers`; it panics without secrets. -/
def signHeaders (secrets : List WebhookSecret) (id : List Char) (timestamp : Int64)
    (body : List UInt8) : Option SignedHeaders :=
  if secrets.isEmpty then none
  else
    some {
      webhookId := id
      webhookTimestamp := timestamp
      webhookSignature := [' '].intercalate (secrets.map fun secret =>
        version ++ sign hmac base64 secret (buildSignedContent id timestamp body)) }

/-- One entry of the signature header: other versions are skipped. -/
def verifyEntry (secrets : List WebhookSecret) (content : List UInt8) (entry : List Char) : Bool :=
  match entry with
  | 'v' :: '1' :: ',' :: signature =>
      secrets.any fun secret => verify hmac base64 secret content signature
  | _ => false

/-- `verify_headers` at the time `now`. -/
def verifyHeaders (now : Int64) (secrets : List WebhookSecret) (headers : HeaderMap)
    (body : List UInt8) (tolerance : ℕ) : Except String Unit :=
  match headerStr headers "webhook-id", headerStr headers "webhook-timestamp",
      headerStr headers "webhook-signature" with
  | .error message, _, _ => .error message
  | .ok _, .error message, _ => .error message
  | .ok _, .ok _, .error message => .error message
  | .ok id, .ok timestampStr, .ok signature =>
      match Db.parseI64 (String.ofList timestampStr) with
      | none => .error "invalid webhook-timestamp"
      | some timestamp =>
          if tolerance < (now - timestamp).toInt.natAbs then
            .error "webhook timestamp outside tolerance"
          else if (signature.splitOn ' ').any
              (verifyEntry hmac base64 secrets (buildSignedContent id timestamp body)) then
            .ok ()
          else .error "no valid webhook signature found"

end Signature

/-! ## What is accepted -/

section Acceptance

variable {hmac : List UInt8 → List UInt8 → List UInt8} {base64 : Base64Engine}

theorem headerStr_eq_ok_iff {headers : HeaderMap} {name : String} {text : List Char} :
    headerStr headers name = .ok text ↔ headers.getStr name = some text := by
  unfold headerStr HeaderMap.getStr
  cases hget : headers.get name with
  | none => simp
  | some value => cases htext : toStr value <;> simp [htext]

theorem verify_iff (hbase64 : base64.RoundTrips) (secret : WebhookSecret) (content : List UInt8)
    (signature : List Char) :
    verify hmac base64 secret content signature = true ↔
      signature = sign hmac base64 secret content := by
  unfold verify sign
  constructor
  · intro hverify
    cases hdecode : base64.decode signature with
    | none => simp [hdecode] at hverify
    | some bytes =>
        simp only [hdecode, decide_eq_true_eq] at hverify
        rw [hbase64.eq_encode hdecode, hverify]
  · rintro rfl
    simp [hbase64.decode_encode]

/-- An entry counts if it is a signature of this version. -/
theorem verifyEntry_iff (hbase64 : base64.RoundTrips) (secrets : List WebhookSecret)
    (content : List UInt8) (entry : List Char) :
    verifyEntry hmac base64 secrets content entry = true ↔
      ∃ secret ∈ secrets, entry = version ++ sign hmac base64 secret content := by
  unfold verifyEntry version
  split
  · simp only [List.any_eq_true, verify_iff hbase64, List.cons_append, List.nil_append,
      List.cons.injEq, true_and]
  · rename_i hversion
    simp only [Bool.false_eq_true, false_iff, not_exists, not_and]
    rintro secret - rfl
    exact hversion _ rfl

/-- The content of the signature header that is accepted: some entry is a signature. -/
def HasSignature (hmac : List UInt8 → List UInt8 → List UInt8) (base64 : Base64Engine)
    (secrets : List WebhookSecret) (content : List UInt8) (signature : List Char) : Prop :=
  ∃ entry ∈ signature.splitOn ' ', ∃ secret ∈ secrets,
    entry = version ++ base64.encode (hmac secret.key content)

/-- The timestamp is within the tolerance, whatever is the later of the two. -/
def WithinTolerance (now timestamp : Int64) (tolerance : ℕ) : Prop :=
  (now.toInt - timestamp.toInt).natAbs ≤ tolerance

/-- What `verify_headers` accepts, with the difference of the times as it is computed. -/
theorem verifyHeaders_eq_ok_iff_sub (hbase64 : base64.RoundTrips) (now : Int64)
    (secrets : List WebhookSecret) (headers : HeaderMap) (body : List UInt8) (tolerance : ℕ) :
    verifyHeaders hmac base64 now secrets headers body tolerance = .ok () ↔
      ∃ id text signature timestamp,
        headers.getStr "webhook-id" = some id ∧
        headers.getStr "webhook-timestamp" = some text ∧
        headers.getStr "webhook-signature" = some signature ∧
        Db.parseI64 (String.ofList text) = some timestamp ∧
        (now - timestamp).toInt.natAbs ≤ tolerance ∧
        HasSignature hmac base64 secrets (buildSignedContent id timestamp body) signature := by
  simp only [← headerStr_eq_ok_iff]
  unfold verifyHeaders
  cases hid : headerStr headers "webhook-id" with
  | error message => simp
  | ok id =>
      cases htext : headerStr headers "webhook-timestamp" with
      | error message => simp
      | ok text =>
          cases hsignature : headerStr headers "webhook-signature" with
          | error message => simp
          | ok signature =>
              dsimp only
              cases hparse : Db.parseI64 (String.ofList text) with
              | none => simp [hparse]
              | some timestamp =>
                  -- every header was read; what remains is the window and an entry
                  have hentries : (signature.splitOn ' ').any (verifyEntry hmac base64 secrets
                      (buildSignedContent id timestamp body)) = true ↔
                      HasSignature hmac base64 secrets (buildSignedContent id timestamp body)
                        signature := by
                    simp only [List.any_eq_true, verifyEntry_iff hbase64, HasSignature, sign]
                  dsimp only
                  constructor
                  · intro hok
                    split_ifs at hok with htolerance hany
                    exact ⟨id, text, signature, timestamp, rfl, rfl, rfl, hparse,
                      not_lt.mp htolerance, hentries.mp hany⟩
                  · rintro ⟨id', text', signature', timestamp', ⟨⟩, ⟨⟩, ⟨⟩, hparse', hwithin, hhas⟩
                    obtain rfl := Option.some.inj (hparse.symm.trans hparse')
                    rw [if_neg (not_lt.mpr hwithin), if_pos (hentries.mpr hhas)]

theorem toInt_sub_of_inRange {now timestamp : Int64}
    (hrange : -2 ^ 63 ≤ now.toInt - timestamp.toInt ∧ now.toInt - timestamp.toInt < 2 ^ 63) :
    (now - timestamp).toInt = now.toInt - timestamp.toInt := by
  rw [Int64.toInt_sub]
  exact Int.bmod_eq_of_le (by omega) (by omega)

/-- Wrapping around brings two times closer together. -/
theorem natAbs_sub_le (now timestamp : Int64) :
    (now - timestamp).toInt.natAbs ≤ (now.toInt - timestamp.toInt).natAbs := by
  rw [Int64.toInt_sub, Int.bmod]
  have hdiv := Int.emod_add_mul_ediv (now.toInt - timestamp.toInt) (2 ^ 64 : ℕ)
  have hlower := Int.emod_nonneg (now.toInt - timestamp.toInt)
    (show ((2 ^ 64 : ℕ) : ℤ) ≠ 0 by decide)
  have hupper := Int.emod_lt_of_pos (now.toInt - timestamp.toInt)
    (show (0 : ℤ) < (2 ^ 64 : ℕ) by decide)
  split_ifs <;> omega

/-- What `verify_headers` accepts. -/
theorem verifyHeaders_eq_ok_iff (hbase64 : base64.RoundTrips) (now : Int64)
    (secrets : List WebhookSecret) (headers : HeaderMap) (body : List UInt8) (tolerance : ℕ)
    (hrange : ∀ text timestamp, headers.getStr "webhook-timestamp" = some text →
      Db.parseI64 (String.ofList text) = some timestamp →
      -2 ^ 63 ≤ now.toInt - timestamp.toInt ∧ now.toInt - timestamp.toInt < 2 ^ 63) :
    verifyHeaders hmac base64 now secrets headers body tolerance = .ok () ↔
      ∃ id text signature timestamp,
        headers.getStr "webhook-id" = some id ∧
        headers.getStr "webhook-timestamp" = some text ∧
        headers.getStr "webhook-signature" = some signature ∧
        Db.parseI64 (String.ofList text) = some timestamp ∧
        WithinTolerance now timestamp tolerance ∧
        HasSignature hmac base64 secrets (buildSignedContent id timestamp body) signature := by
  rw [verifyHeaders_eq_ok_iff_sub hbase64]
  refine exists_congr fun id => exists_congr fun text => exists_congr fun signature =>
    exists_congr fun timestamp => and_congr_right fun _ => and_congr_right fun htext =>
      and_congr_right fun _ => and_congr_right fun hparse => and_congr_left fun _ => ?_
  rw [toInt_sub_of_inRange (hrange text timestamp htext hparse), WithinTolerance]

/-! ## What was signed -/

/-- The headers of a request carry what was signed. -/
def Carries (headers : HeaderMap) (signed : SignedHeaders) : Prop :=
  headers.get "webhook-id" = some (ofText signed.webhookId) ∧
    headers.get "webhook-timestamp" = some (ofText (timestampText signed.webhookTimestamp)) ∧
    headers.get "webhook-signature" = some (ofText signed.webhookSignature)

theorem isVisibleChar_of_digit {c : Char} (hc : c.isDigit = true) : isVisibleChar c = true := by
  have hrange : 48 ≤ c.toNat ∧ c.toNat ≤ 57 := Char.isDigit_iff_toNat.mp hc
  exact (isVisibleChar_iff c).mpr (.inl (by omega))

theorem visible_timestampText (timestamp : Int64) :
    ∀ c ∈ timestampText timestamp, isVisibleChar c = true := by
  have hdigits : ∀ n, ∀ c ∈ Nat.toDigits 10 n, isVisibleChar c = true := fun n c hc =>
    isVisibleChar_of_digit (Nat.isDigit_of_mem_toDigits (by decide) (by decide) hc)
  rw [timestampText, Int.repr_eq_if]
  split_ifs with hsign
  · rw [Nat.toList_repr]
    exact hdigits _
  · rw [String.toList_append, Nat.toList_repr, List.forall_mem_append]
    exact ⟨by decide, hdigits _⟩

theorem parseI64_timestampText (timestamp : Int64) :
    Db.parseI64 (String.ofList (timestampText timestamp)) = some timestamp := by
  rw [timestampText, String.ofList_toList, ← Int.toString_eq_repr, Db.parseI64_toString]

/-- The entries of a signature are visible and have no space. -/
theorem visible_entry (hbase64 : base64.RoundTrips) (secret : WebhookSecret)
    (content : List UInt8) :
    ∀ c ∈ version ++ sign hmac base64 secret content, isVisibleChar c = true ∧ c ≠ ' ' := by
  rw [List.forall_mem_append]
  refine ⟨by decide, fun c hc => ?_⟩
  have hc := hbase64.isBase64_of_mem hc
  refine ⟨isVisibleChar_of_base64 hc, ?_⟩
  rintro rfl
  exact absurd hc (by decide)

/-- A signature of the header is an entry of it. -/
theorem entry_mem_splitOn (hbase64 : base64.RoundTrips) {secrets : List WebhookSecret}
    {secret : WebhookSecret} (hsecret : secret ∈ secrets) (content : List UInt8) :
    version ++ sign hmac base64 secret content ∈
      ([' '].intercalate (secrets.map fun secret =>
        version ++ sign hmac base64 secret content)).splitOn ' ' := by
  rw [List.splitOn_intercalate]
  · exact List.mem_map_of_mem hsecret
  · intro entry hentry hspace
    obtain ⟨other, -, rfl⟩ := List.mem_map.mp hentry
    exact (visible_entry hbase64 other content ' ' hspace).2 rfl
  · rw [ne_eq, List.map_eq_nil_iff]
    exact List.ne_nil_of_mem hsecret

theorem visible_signature (hbase64 : base64.RoundTrips) (secrets : List WebhookSecret)
    (content : List UInt8) :
    ∀ c ∈ [' '].intercalate (secrets.map fun secret =>
      version ++ sign hmac base64 secret content), isVisibleChar c = true := by
  intro c hc
  rcases Text.mem_intercalate hc with hc | ⟨entry, hentry, hc⟩
  · rw [List.mem_singleton.mp hc]
    decide
  · obtain ⟨secret, -, rfl⟩ := List.mem_map.mp hentry
    exact (visible_entry hbase64 secret content c hc).1

/-- What was signed is accepted under every list of secrets that shares one. -/
theorem verifyHeaders_signHeaders (hbase64 : base64.RoundTrips) {secrets : List WebhookSecret}
    {id : List Char} (hid : ∀ c ∈ id, isVisibleChar c = true) {timestamp : Int64}
    {body : List UInt8} {signed : SignedHeaders}
    (hsigned : signHeaders hmac base64 secrets id timestamp body = some signed)
    {headers : HeaderMap} (hcarries : Carries headers signed) {secret : WebhookSecret}
    (hsecret : secret ∈ secrets) {verifiers : List WebhookSecret} (hverifier : secret ∈ verifiers)
    {now : Int64} {tolerance : ℕ} (hwithin : WithinTolerance now timestamp tolerance) :
    verifyHeaders hmac base64 now verifiers headers body tolerance = .ok () := by
  rw [signHeaders, if_neg (by simp [List.ne_nil_of_mem hsecret])] at hsigned
  obtain rfl := Option.some.inj hsigned
  obtain ⟨hidHeader, htextHeader, hsignatureHeader⟩ := hcarries
  rw [verifyHeaders_eq_ok_iff_sub hbase64]
  refine ⟨id, timestampText timestamp, _, timestamp, ?_, ?_, ?_,
    parseI64_timestampText timestamp, (natAbs_sub_le now timestamp).trans hwithin,
    version ++ sign hmac base64 secret (buildSignedContent id timestamp body),
    entry_mem_splitOn hbase64 hsecret _, secret, hverifier, rfl⟩
  · rw [HeaderMap.getStr, hidHeader, Option.bind_some, toStr_ofText hid]
  · rw [HeaderMap.getStr, htextHeader, Option.bind_some,
      toStr_ofText (visible_timestampText timestamp)]
  · rw [HeaderMap.getStr, hsignatureHeader, Option.bind_some,
      toStr_ofText (visible_signature hbase64 secrets _)]

variable (hmac) in
/-- **Webhook signatures**: what is signed verifies under every list of secrets that shares
one, at every time within the tolerance, and what verifies has its three headers in visible
ASCII, a timestamp within the tolerance, and an entry that signs the content. -/
theorem webhook_signatures (hbase64 : base64.RoundTrips) :
    (∀ secrets id timestamp body, secrets ≠ [] → (∀ c ∈ id, isVisibleChar c = true) →
      ∃ signed, signHeaders hmac base64 secrets id timestamp body = some signed ∧
        ∀ headers, Carries headers signed → ∀ verifiers, (∃ secret ∈ secrets, secret ∈ verifiers) →
          ∀ now tolerance, WithinTolerance now timestamp tolerance →
            verifyHeaders hmac base64 now verifiers headers body tolerance = .ok ()) ∧
    ∀ now secrets headers body tolerance,
      (∀ text timestamp, headers.getStr "webhook-timestamp" = some text →
        Db.parseI64 (String.ofList text) = some timestamp →
        -2 ^ 63 ≤ now.toInt - timestamp.toInt ∧ now.toInt - timestamp.toInt < 2 ^ 63) →
      (verifyHeaders hmac base64 now secrets headers body tolerance = .ok () ↔
        ∃ id text signature timestamp,
          headers.getStr "webhook-id" = some id ∧
          headers.getStr "webhook-timestamp" = some text ∧
          headers.getStr "webhook-signature" = some signature ∧
          Db.parseI64 (String.ofList text) = some timestamp ∧
          WithinTolerance now timestamp tolerance ∧
          HasSignature hmac base64 secrets (buildSignedContent id timestamp body) signature) := by
  constructor
  · intro secrets id timestamp body hsecrets hid
    refine ⟨_, if_neg (by simpa using hsecrets), ?_⟩
    rintro headers hcarries verifiers ⟨secret, hsecret, hverifier⟩ now tolerance hwithin
    exact verifyHeaders_signHeaders hbase64 hid (if_neg (by simpa using hsecrets)) hcarries
      hsecret hverifier hwithin
  · intro now secrets headers body tolerance hrange
    exact verifyHeaders_eq_ok_iff hbase64 now secrets headers body tolerance hrange

end Acceptance

/-- The standard engine. -/
def standardEngine : Base64Engine where
  encode := Base64.encode
  decode := Base64.decode

theorem standardEngine_roundTrips : standardEngine.RoundTrips where
  decode_encode := Base64.decode_encode
  eq_encode := Base64.eq_encode_of_decode
  isBase64_of_mem hc := by
    have halphabet : ∀ c ∈ Base64.alphabet, isBase64 c = true := by decide
    rcases Base64.mem_encode hc with hc | rfl
    · exact halphabet _ hc
    · decide

/-- A hash that is the key. -/
def keyHmac (key _content : List UInt8) : List UInt8 := key

def oneSecret : WebhookSecret := { key := [1] }

/-- The headers of the message `m` at the time 0, signed with `oneSecret`. -/
def signedMessage : HeaderMap :=
  [("webhook-id", ofText ['m']), ("webhook-timestamp", ofText ['0']),
    ("webhook-signature", ofText ['v', '1', ',', 'A', 'Q', '=', '='])]

theorem verifyHeaders_signedMessage :
    verifyHeaders keyHmac standardEngine 5 [oneSecret] signedMessage [] 300 = .ok () := by
  obtain ⟨signed, hsigned, hverify⟩ :=
    (webhook_signatures keyHmac standardEngine_roundTrips).1 [oneSecret] ['m'] 0 []
      (by simp) (by decide)
  obtain rfl := Option.some.inj hsigned
  have hwithin : WithinTolerance 5 0 300 := by
    unfold WithinTolerance
    decide
  refine hverify signedMessage ?_ [oneSecret] ⟨oneSecret, by simp, by simp⟩ 5 300 hwithin
  exact ⟨by decide +kernel, by decide +kernel, by decide +kernel⟩

/-- The same message with an id that is not ASCII, signed over the bytes of that id. -/
def opaqueMessage : HeaderMap :=
  [("webhook-id", [0xe9]), ("webhook-timestamp", ofText ['0']),
    ("webhook-signature", ofText ['v', '1', ',', 'A', 'Q', '=', '='])]

/-- All three headers are present, and the signature is right, but the id is not read. -/
theorem verifyHeaders_opaqueMessage :
    opaqueMessage.get "webhook-id" = some [0xe9] ∧
      opaqueMessage.getStr "webhook-timestamp" = some ['0'] ∧
      Db.parseI64 (String.ofList ['0']) = some 0 ∧ WithinTolerance 0 0 300 ∧
      opaqueMessage.getStr "webhook-signature" =
        some (version ++ standardEngine.encode
          (keyHmac oneSecret.key ([0xe9] ++ ofText ['.', '0', '.'] ++ []))) ∧
      verifyHeaders keyHmac standardEngine 0 [oneSecret] opaqueMessage [] 300 =
        .error "invalid webhook-id header encoding" := by
  unfold WithinTolerance
  decide +kernel

end Modo.Webhook
