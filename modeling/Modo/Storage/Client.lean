import Modo.Encoding.Hex
import Modo.Lib.Text
import Modo.Time

/-!
# Requests to a bucket

`RemoteBackend` puts the URL of a request and the canonical request that it signs together
from the same configuration, but each on its own: for the objects in `buildUrlAndHost` and
`buildCanonicalUri`, in `list` and in `presignUrl` once more.

SHA-256 and HMAC come from crates and are parameters (`Crypto`).
-/

namespace Modo.Storage

/-! ## Configuration -/

/-- `BucketConfig`, as far as requests are made of it. -/
structure BucketConfig where
  bucket : List Char
  region : Option (List Char)
  endpoint : List Char
  accessKey : List Char
  secretKey : List Char
  maxFileSize : Option (List Char)
  pathStyle : Bool

/-- `str::parse::<usize>`. -/
def parseUsize (text : List Char) : Option ℕ :=
  let digits := if text.head? = some '+' then text.tail else text
  if digits ≠ [] ∧ digits.all Char.isDigit then
    let number := Nat.ofDigitChars 10 digits 0
    if number < 2 ^ 64 then some number else none
  else none

/-- The number and the factor of its unit. -/
def splitUnit (size : List Char) : List Char × ℕ :=
  if ['g', 'b'].isSuffixOf size then (size.dropLast.dropLast, 1024 * 1024 * 1024)
  else if ['m', 'b'].isSuffixOf size then (size.dropLast.dropLast, 1024 * 1024)
  else if ['k', 'b'].isSuffixOf size then (size.dropLast.dropLast, 1024)
  else if ['b'].isSuffixOf size then (size.dropLast, 1)
  else (size, 1)

/-- `parse_size`. -/
def parseSize (text : List Char) : Except String ℕ :=
  let size := (Text.trim text).map Char.toLower
  if size.isEmpty then .error "empty size string"
  else
    match parseUsize (Text.trim (splitUnit size).1) with
    | none => .error ("invalid size string: \"" ++ String.ofList size ++ "\"")
    | some number =>
        let result := number * (splitUnit size).2
        if 2 ^ 64 ≤ result then
          .error ("size value overflows: \"" ++ String.ofList size ++ "\"")
        else if result = 0 then
          .error ("size must be greater than 0: \"" ++ String.ofList size ++ "\"")
        else .ok result

/-- `BucketConfig::validate`. -/
def BucketConfig.validate (config : BucketConfig) : Except String Unit :=
  if config.bucket.isEmpty then .error "bucket name is required"
  else if config.endpoint.isEmpty then .error "endpoint is required"
  else
    match config.maxFileSize with
    | none => .ok ()
    | some size => (parseSize size).map fun _ => ()

/-! ## Encoding -/

/-- The bytes of a text. -/
def asBytes (text : List Char) : List UInt8 := text.flatMap String.utf8EncodeChar

def isUnreserved (byte : UInt8) : Bool :=
  let c := Char.ofNat byte.toNat
  decide ('A' ≤ c ∧ c ≤ 'Z' ∨ 'a' ≤ c ∧ c ≤ 'z' ∨ '0' ≤ c ∧ c ≤ '9' ∨ c = '_' ∨ c = '-' ∨ c = '.' ∨
    c = '~')

/-- An uppercase digit. -/
def hexDigitUpper (n : ℕ) : Char := (Hex.digit n).toUpper

/-- One byte of `uri_encode`. -/
def encodeByte (encodeSlash : Bool) (byte : UInt8) : List Char :=
  if isUnreserved byte then [Char.ofNat byte.toNat]
  else if byte = 47 ∧ encodeSlash = false then ['/']
  else ['%', hexDigitUpper (byte.toNat / 16), hexDigitUpper (byte.toNat % 16)]

/-- `uri_encode`. -/
def uriEncode (input : List Char) (encodeSlash : Bool) : List Char :=
  (asBytes input).flatMap (encodeByte encodeSlash)

/-! ## Signing -/

/-- SHA-256, and HMAC-SHA-256 with its key first. -/
structure Crypto where
  sha256 : List UInt8 → List UInt8
  hmac : List UInt8 → List UInt8 → List UInt8

/-- `SigningParams`. -/
structure SigningParams where
  accessKey : List Char
  secretKey : List Char
  region : List Char
  method : List Char
  canonicalUri : List Char
  host : List Char
  queryString : List Char
  extraHeaders : List (List Char × List Char)
  payloadHash : List Char
  now : DateTime

/-- The request in the form that is signed. -/
structure CanonicalRequest where
  method : List Char
  uri : List Char
  query : List Char
  headers : List (List Char × List Char)
  payloadHash : List Char
  deriving DecidableEq

def CanonicalRequest.signedHeaders (request : CanonicalRequest) : List Char :=
  [';'].intercalate (request.headers.map Prod.fst)

def CanonicalRequest.text (request : CanonicalRequest) : List Char :=
  ['\n'].intercalate [request.method, request.uri, request.query,
    request.headers.flatMap fun (name, value) => name ++ ':' :: (value ++ ['\n']),
    request.signedHeaders, request.payloadHash]

/-- `%Y%m%d`. -/
def dateStamp (now : DateTime) : List Char :=
  let date := DateTime.civil (now.secs / 86400)
  DateTime.yearText date.1 ++ (Decimal.digits 2 date.2.1 ++ Decimal.digits 2 date.2.2)

/-- `%Y%m%dT%H%M%SZ`. -/
def amzDate (now : DateTime) : List Char :=
  let second := (now.secs % 86400).toNat
  let leap := now.nanos / 1_000_000_000
  dateStamp now ++ 'T' :: (Decimal.digits 2 (second / 3600) ++
    (Decimal.digits 2 (second / 60 % 60) ++ (Decimal.digits 2 (second % 60 + leap) ++ ['Z'])))

def scope (region : List Char) (now : DateTime) : List Char :=
  dateStamp now ++ '/' :: (region ++ "/s3/aws4_request".toList)

/-- `derive_signing_key`. -/
def deriveSigningKey (crypto : Crypto) (secretKey dateStamp region : List Char) : List UInt8 :=
  let kDate := crypto.hmac (asBytes ("AWS4".toList ++ secretKey)) (asBytes dateStamp)
  let kRegion := crypto.hmac kDate (asBytes region)
  let kService := crypto.hmac kRegion (asBytes "s3".toList)
  crypto.hmac kService (asBytes "aws4_request".toList)

/-- The signature of a canonical request. -/
def signature (crypto : Crypto) (secretKey region : List Char) (now : DateTime)
    (request : CanonicalRequest) : List Char :=
  let stringToSign := ['\n'].intercalate ["AWS4-HMAC-SHA256".toList, amzDate now,
    scope region now, Hex.encode (crypto.sha256 (asBytes request.text))]
  Hex.encode (crypto.hmac (deriveSigningKey crypto secretKey (dateStamp now) region)
    (asBytes stringToSign))

def hostName : List Char := ['h', 'o', 's', 't']

/-- The query string with its pairs sorted. -/
def sortQuery (query : List Char) : List Char :=
  if query.isEmpty then []
  else ['&'].intercalate ((query.splitOn '&').mergeSort fun a b => !decide (b < a))

section SignRequest

-- `str::to_lowercase`
variable (toLowercase : List Char → List Char)

/-- The canonical request of `sign_request`. -/
def canonicalRequest (params : SigningParams) : CanonicalRequest where
  method := params.method
  uri := params.canonicalUri
  query := sortQuery params.queryString
  headers :=
    ([(hostName, params.host), ("x-amz-content-sha256".toList, params.payloadHash),
        ("x-amz-date".toList, amzDate params.now)] ++
      params.extraHeaders.map fun header => (toLowercase header.1, header.2)).mergeSort
      fun a b => !decide (b.1 < a.1)
  payloadHash := params.payloadHash

/-- `sign_request`: the authorization and the headers to add. -/
def signRequest (crypto : Crypto) (params : SigningParams) :
    List Char × List (List Char × List Char) :=
  let request := canonicalRequest toLowercase params
  ("AWS4-HMAC-SHA256 Credential=".toList ++ params.accessKey ++ '/' ::
      (scope params.region params.now ++ (",SignedHeaders=".toList ++ (request.signedHeaders ++
        (",Signature=".toList ++
          signature crypto params.secretKey params.region params.now request)))),
    request.headers)

end SignRequest

/-! ## Requests -/

/-- `str::to_lowercase` on the names of the headers that are added, which are ASCII. -/
def lowerName (name : List Char) : List Char := name.map Char.toLower

/-- `strip_scheme`. -/
def stripScheme (endpoint : List Char) : List Char :=
  if "https://".toList.isPrefixOf endpoint then endpoint.drop 8
  else if "http://".toList.isPrefixOf endpoint then endpoint.drop 7
  else endpoint

/-- `build_url_and_host`. -/
def buildUrlAndHost (endpoint endpointHost bucket key : List Char) (pathStyle : Bool) :
    List Char × List Char :=
  let encodedKey := uriEncode key false
  if pathStyle then (endpoint ++ '/' :: (bucket ++ '/' :: encodedKey), endpointHost)
  else
    -- `https`, whatever the scheme of the endpoint is
    ("https://".toList ++ (bucket ++ '.' :: endpointHost ++ '/' :: encodedKey),
      bucket ++ '.' :: endpointHost)

/-- `build_canonical_uri`. -/
def buildCanonicalUri (bucket key : List Char) (pathStyle : Bool) : List Char :=
  let encodedKey := uriEncode key false
  if pathStyle then '/' :: (bucket ++ '/' :: encodedKey) else '/' :: encodedKey

/-- `RemoteBackend`. -/
structure RemoteBackend where
  bucket : List Char
  endpoint : List Char
  endpointHost : List Char
  accessKey : List Char
  secretKey : List Char
  region : List Char
  pathStyle : Bool

/-- The backend that `Storage::with_client` makes of a configuration. -/
def BucketConfig.backend (config : BucketConfig) : RemoteBackend where
  bucket := config.bucket
  endpoint := config.endpoint
  endpointHost := stripScheme config.endpoint
  accessKey := config.accessKey
  secretKey := config.secretKey
  region := config.region.getD "us-east-1".toList
  pathStyle := config.pathStyle

/-- A request as it is sent, and what its authorization signs. -/
structure Request where
  method : List Char
  url : List Char
  headers : List (List Char × List Char)
  body : List UInt8
  signed : CanonicalRequest

/-- `Acl`, by its header value. -/
inductive Acl where
  | private_
  | publicRead

def Acl.asHeaderValue : Acl → List Char
  | .private_ => "private".toList
  | .publicRead => "public-read".toList

/-- `PutOptions`, as far as `put` reads it. -/
structure PutOptions where
  contentDisposition : Option (List Char)
  cacheControl : Option (List Char)
  acl : Option Acl

/-- `EMPTY_SHA256`. -/
def emptySha256 : List Char :=
  "e3b0c44298fc1c149afbf4c8996fb92427ae41e4649b934ca495991b7852b855".toList

/-- Sign and send: what all requests have in common. -/
def RemoteBackend.send (backend : RemoteBackend) (crypto : Crypto) (now : DateTime)
    (method url host canonicalUri queryString : List Char)
    (extraHeaders : List (List Char × List Char)) (payloadHash : List Char)
    (moreHeaders : List (List Char × List Char)) (body : List UInt8) : Request :=
  let params : SigningParams :=
    { accessKey := backend.accessKey
      secretKey := backend.secretKey
      region := backend.region
      method, canonicalUri, host, queryString, extraHeaders, payloadHash, now }
  let signed := signRequest lowerName crypto params
  { method, url, body
    headers := signed.2 ++ ("authorization".toList, signed.1) :: moreHeaders
    signed := canonicalRequest lowerName params }

/-- A request for an object. -/
def RemoteBackend.sendObject (backend : RemoteBackend) (crypto : Crypto) (now : DateTime)
    (method key : List Char) (extraHeaders : List (List Char × List Char))
    (payloadHash : List Char) (moreHeaders : List (List Char × List Char))
    (body : List UInt8) : Request :=
  let target := buildUrlAndHost backend.endpoint backend.endpointHost backend.bucket key
    backend.pathStyle
  backend.send crypto now method target.1 target.2
    (buildCanonicalUri backend.bucket key backend.pathStyle) [] extraHeaders payloadHash
    moreHeaders body

/-- The signed headers of `put`. -/
def putHeaders (contentType : List Char) (opts : PutOptions) : List (List Char × List Char) :=
  ("content-type".toList, contentType) ::
    ((opts.contentDisposition.toList.map fun value => ("content-disposition".toList, value)) ++
      ((opts.cacheControl.toList.map fun value => ("cache-control".toList, value)) ++
        (opts.acl.toList.map fun acl => ("x-amz-acl".toList, acl.asHeaderValue))))

/-- `RemoteBackend::put`. -/
def RemoteBackend.put (backend : RemoteBackend) (crypto : Crypto) (now : DateTime)
    (key : List Char) (data : List UInt8) (contentType : List Char) (opts : PutOptions) :
    Request :=
  backend.sendObject crypto now "PUT".toList key (putHeaders contentType opts)
    "UNSIGNED-PAYLOAD".toList [("content-length".toList, Nat.toDigits 10 data.length)] data

/-- `RemoteBackend::delete`. -/
def RemoteBackend.delete (backend : RemoteBackend) (crypto : Crypto) (now : DateTime)
    (key : List Char) : Request :=
  backend.sendObject crypto now "DELETE".toList key [] emptySha256 [] []

/-- `RemoteBackend::exists`. -/
def RemoteBackend.existsKey (backend : RemoteBackend) (crypto : Crypto) (now : DateTime)
    (key : List Char) : Request :=
  backend.sendObject crypto now "HEAD".toList key [] emptySha256 [] []

/-- The query of `list`. -/
def listQuery (keyPrefix : List Char) (continuationToken : Option (List Char)) : List Char :=
  ['&'].intercalate ("list-type=2".toList :: ("prefix=".toList ++ uriEncode keyPrefix true) ::
    continuationToken.toList.map fun token =>
      "continuation-token=".toList ++ uriEncode token true)

/-- One round of `RemoteBackend::list`. -/
def RemoteBackend.list (backend : RemoteBackend) (crypto : Crypto) (now : DateTime)
    (keyPrefix : List Char) (continuationToken : Option (List Char)) : Request :=
  let query := listQuery keyPrefix continuationToken
  let target :=
    if backend.pathStyle then
      (backend.endpoint ++ '/' :: (backend.bucket ++ '?' :: query), backend.endpointHost)
    else
      ("https://".toList ++ (backend.bucket ++ '.' :: backend.endpointHost ++ '/' :: '?' :: query),
        backend.bucket ++ '.' :: backend.endpointHost)
  let canonicalUri := if backend.pathStyle then '/' :: backend.bucket else ['/']
  backend.send crypto now "GET".toList target.1 target.2 canonicalUri query [] emptySha256 [] []

/-- The query of a presigned URL without the signature. -/
def presignQuery (backend : RemoteBackend) (now : DateTime) (expires : ℕ) : List Char :=
  ['&'].intercalate ["X-Amz-Algorithm=AWS4-HMAC-SHA256".toList,
    "X-Amz-Credential=".toList ++
      uriEncode (backend.accessKey ++ '/' :: scope backend.region now) true,
    "X-Amz-Date=".toList ++ amzDate now, "X-Amz-Expires=".toList ++ Nat.toDigits 10 expires,
    "X-Amz-SignedHeaders=host".toList]

/-- The canonical request of `presign_url`. -/
def presignRequest (backend : RemoteBackend) (now : DateTime) (key : List Char) (expires : ℕ) :
    CanonicalRequest where
  method := "GET".toList
  uri :=
    if backend.pathStyle then '/' :: (backend.bucket ++ '/' :: uriEncode key false)
    else '/' :: uriEncode key false
  query := presignQuery backend now expires
  headers :=
    [(hostName,
      if backend.pathStyle then backend.endpointHost
      else backend.bucket ++ '.' :: backend.endpointHost)]
  payloadHash := "UNSIGNED-PAYLOAD".toList

def signatureName : List Char := "X-Amz-Signature=".toList

/-- `presign_url`. -/
def presignUrl (backend : RemoteBackend) (crypto : Crypto) (now : DateTime) (key : List Char)
    (expires : ℕ) : List Char :=
  let encodedKey := uriEncode key false
  let baseUrl :=
    if backend.pathStyle then backend.endpoint ++ '/' :: (backend.bucket ++ '/' :: encodedKey)
    else "https://".toList ++ (backend.bucket ++ '.' :: backend.endpointHost ++ '/' :: encodedKey)
  baseUrl ++ '?' :: (presignQuery backend now expires ++ '&' :: (signatureName ++
    signature crypto backend.secretKey backend.region now
      (presignRequest backend now key expires)))

end Modo.Storage
