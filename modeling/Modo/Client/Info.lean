import Modo.Http.Headers
import Modo.Lib.Utf8
import Modo.Session.Store

/-!
# What a request says of its client

`ClientInfo` keeps the address and the user agent of a client, a name and a type of its device that
are read off the user agent, and a fingerprint.  The fingerprint is the hash of three headers with
a NUL between them.  A header that is read as a text has no NUL, so the fingerprint tells any two
triples apart (`fingerprintOf_eq_iff`).
-/

namespace Modo.Client

open Http (HeaderMap isVisibleAscii)
open Sessions (ClientInfo)

/-! ## Devices -/

/-- `str::contains`. -/
def contains (text : List Char) (pattern : String) : Bool := decide (pattern.toList <:+: text)

/-- `parse_browser`. -/
def parseBrowser (ua : List Char) : String :=
  if contains ua "OPR/" || contains ua "Opera" then "Opera"
  else if contains ua "Edg/" then "Edge"
  else if contains ua "Firefox/" then "Firefox"
  else if contains ua "Chromium/" then "Chromium"
  else if contains ua "Chrome/" then "Chrome"
  else if contains ua "Safari/" then "Safari"
  else "Unknown"

/-- `parse_os`. -/
def parseOs (ua : List Char) : String :=
  if contains ua "iPhone" then "iPhone"
  else if contains ua "iPad" then "iPad"
  else if contains ua "HarmonyOS" then "HarmonyOS"
  else if contains ua "Android" then "Android"
  else if contains ua "CrOS" then "ChromeOS"
  else if contains ua "Mac OS X" || contains ua "Macintosh" || contains ua "OS X" then "macOS"
  else if contains ua "Windows" then "Windows"
  else if contains ua "FreeBSD" then "FreeBSD"
  else if contains ua "OpenBSD" then "OpenBSD"
  else if contains ua "Linux" then "Linux"
  else "Unknown"

/-- `parse_device_name`. -/
def parseDeviceName (userAgent : List Char) : String :=
  s!"{parseBrowser userAgent} on {parseOs userAgent}"

/-- `parse_device_type`; a user agent is ASCII. -/
def parseDeviceType (userAgent : List Char) : String :=
  let ua := userAgent.map Char.toLower
  if contains ua "tablet" || contains ua "ipad" then "tablet"
  else if contains ua "mobile" || contains ua "iphone" ||
      (contains ua "android" && !contains ua "tablet") then "mobile"
  else "desktop"

/-! ## Fingerprints -/

variable (sha256 : List UInt8 → String)

/-- What is hashed: three texts with a NUL between them. -/
def fingerprintBytes (userAgent acceptLanguage acceptEncoding : List Char) : List UInt8 :=
  (Http.ofText userAgent ++ 0 :: Http.ofText acceptLanguage) ++ 0 :: Http.ofText acceptEncoding

/-- `compute_fingerprint`; `sha256` is the hex text of the digest. -/
def computeFingerprint (userAgent acceptLanguage acceptEncoding : List Char) : String :=
  sha256 (fingerprintBytes userAgent acceptLanguage acceptEncoding)

/-- `ClientInfo::from_headers`. -/
def fromHeaders (ip : Option String) (userAgent acceptLanguage acceptEncoding : List Char) :
    ClientInfo where
  ip := ip
  userAgent := some (String.ofList userAgent)
  deviceName := some (parseDeviceName userAgent)
  deviceType := some (parseDeviceType userAgent)
  fingerprint := some (computeFingerprint sha256 userAgent acceptLanguage acceptEncoding)

/-- `header_str`. -/
def headerStr (headers : HeaderMap) (name : String) : List Char := (headers.getStr name).getD []

/-- The client of a request, as the session middleware reads it. -/
def ofRequest (ip : Option String) (headers : HeaderMap) : ClientInfo :=
  fromHeaders sha256 ip (headerStr headers "user-agent") (headerStr headers "accept-language")
    (headerStr headers "accept-encoding")

/-- `ClientInfo::from_request_parts`. -/
def fromRequestParts (ip : Option String) (headers : HeaderMap) : ClientInfo :=
  let userAgent := headers.getStr "user-agent"
  { ip := ip
    userAgent := userAgent.map String.ofList
    deviceName := userAgent.map parseDeviceName
    deviceType := userAgent.map parseDeviceType
    fingerprint := some (computeFingerprint sha256 (userAgent.getD [])
      (headerStr headers "accept-language") (headerStr headers "accept-encoding")) }

/-- The three headers say the same. -/
def SameBrowser (first second : HeaderMap) : Prop :=
  headerStr first "user-agent" = headerStr second "user-agent" ∧
    headerStr first "accept-language" = headerStr second "accept-language" ∧
    headerStr first "accept-encoding" = headerStr second "accept-encoding"

/-- The fingerprint of a request. -/
def fingerprintOf (headers : HeaderMap) : String :=
  computeFingerprint sha256 (headerStr headers "user-agent") (headerStr headers "accept-language")
    (headerStr headers "accept-encoding")

@[simp] theorem fingerprint_ofRequest (ip : Option String) (headers : HeaderMap) :
    (ofRequest sha256 ip headers).fingerprint = some (fingerprintOf sha256 headers) := rfl

@[simp] theorem fingerprint_fromRequestParts (ip : Option String) (headers : HeaderMap) :
    (fromRequestParts sha256 ip headers).fingerprint = some (fingerprintOf sha256 headers) := rfl

variable {sha256}

/-! ## No two triples have one fingerprint -/

theorem ofText_injective : Function.Injective Http.ofText := by
  intro first second heq
  have hbytes : Utf8.asBytes (String.ofList first) = Utf8.asBytes (String.ofList second) := by
    rw [Utf8.asBytes, Utf8.asBytes, String.toList_ofList, String.toList_ofList]
    exact heq
  simpa using congrArg String.toList (Utf8.asBytes_injective hbytes)

/-- A header that is read as a text has no NUL. -/
theorem zero_notMem_headerStr (headers : HeaderMap) (name : String) :
    0 ∉ Http.ofText (headerStr headers name) := by
  intro hzero
  obtain ⟨c, hc, hbyte⟩ := List.mem_flatMap.mp hzero
  have hnul : (0 : UInt8).toNat = c.toNat := Utf8.toNat_eq_of_mem_utf8EncodeChar (by decide) hbyte
  obtain ⟨text, htext, hmem⟩ : ∃ text, headers.getStr name = some text ∧ c ∈ text := by
    unfold headerStr at hc
    cases hget : headers.getStr name with
    | none => simp [hget] at hc
    | some text => exact ⟨text, rfl, by simpa [hget] using hc⟩
  obtain ⟨value, -, hvalue⟩ := Option.bind_eq_some_iff.mp htext
  unfold Http.toStr at hvalue
  split at hvalue
  · rename_i hvisible
    obtain rfl := Option.some.inj hvalue
    obtain ⟨byte, hread, rfl⟩ := List.mem_map.mp hmem
    have hshown := (Http.isVisibleAscii_iff byte).mp (List.all_eq_true.mp hvisible byte hread)
    have hsame : (Char.ofNat byte.toNat).toNat = byte.toNat := by
      rw [Char.ofNat, dif_pos (Or.inl (by omega))]
      rfl
    rw [hsame, UInt8.toNat_zero] at hnul
    omega
  · cases hvalue

/-- **The fingerprint tells clients apart.** -/
theorem fingerprintOf_eq_iff (hinj : Function.Injective sha256) {first second : HeaderMap} :
    fingerprintOf sha256 first = fingerprintOf sha256 second ↔ SameBrowser first second := by
  constructor
  · intro heq
    have hbytes := hinj heq
    unfold fingerprintBytes at hbytes
    obtain ⟨hrest, hencoding⟩ := Utf8.append_separator_inj (zero_notMem_headerStr first _)
      (zero_notMem_headerStr second _) hbytes
    obtain ⟨hagent, hlanguage⟩ := Utf8.append_separator_inj (zero_notMem_headerStr first _)
      (zero_notMem_headerStr second _) hrest
    exact ⟨ofText_injective hagent, ofText_injective hlanguage, ofText_injective hencoding⟩
  · rintro ⟨hagent, hlanguage, hencoding⟩
    rw [fingerprintOf, fingerprintOf, hagent, hlanguage, hencoding]

end Modo.Client
