import Modo.Http.Cookies
import Modo.Lib.JsonText

/-!
# The flash cookie

The middleware writes the queued messages as a JSON text into a signed cookie, and reads
the text back from the `Cookie` header of the next request.  Between the two stand the
header value, which has to be made of valid bytes, and the browser, which keeps what stands
before the first `;`.

The signing of the cookie crate is a `SignedJar`, and the JSON reader is a parameter.
-/

namespace Modo.Flash

open Http

/-- `FlashEntry`. -/
structure FlashEntry where
  level : List Char
  message : List Char
  deriving DecidableEq

/-- `CookieConfig`, without the secret that the key is derived from. -/
structure CookieConfig where
  secure : Bool
  httpOnly : Bool
  sameSite : String

/-- `COOKIE_NAME`. -/
def cookieName : String := "flash"

/-- `MAX_AGE_SECS`. -/
def maxAgeSecs : ℕ := 300

/-- What stands before the level of an entry. -/
def levelKey : List Char := ['\x7b', '"', 'l', 'e', 'v', 'e', 'l', '"', ':']

/-- What stands between the level and the message. -/
def messageKey : List Char := [',', '"', 'm', 'e', 's', 's', 'a', 'g', 'e', '"', ':']

/-- `serde_json::to_string` of an entry. -/
def entryJson (entry : FlashEntry) : List Char :=
  levelKey ++ (JsonText.quoted entry.level ++
    (messageKey ++ (JsonText.quoted entry.message ++ ['\x7d'])))

/-- `serde_json::to_string` of the entries. -/
def toJson (entries : List FlashEntry) : List Char :=
  '[' :: ([','].intercalate (entries.map entryJson) ++ [']'])

/-- `SameSite`. -/
inductive SameSite where
  | strict
  | none
  | lax
  deriving DecidableEq

def CookieConfig.sameSiteOf (config : CookieConfig) : SameSite :=
  match config.sameSite with
  | "strict" => .strict
  | "none" => .none
  | _ => .lax

/-- What `Cookie::to_string` writes behind the value. -/
def attributes (httpOnly secure : Bool) (sameSite : SameSite) (maxAge : ℕ) : List Char :=
  (if httpOnly then "; HttpOnly".toList else []) ++
  (match sameSite with
    | .strict => "; SameSite=Strict".toList
    | .none => "; SameSite=None".toList
    | .lax => "; SameSite=Lax".toList) ++
  (if secure then "; Secure".toList else []) ++
  "; Path=/; Max-Age=".toList ++ (Nat.repr maxAge).toList

section Middleware

variable (opaqueBytes : Bool) (jar : SignedJar) (config : CookieConfig)

/-- `set_cookie`: the `Set-Cookie` field, or none when the header value is refused. -/
def setCookie (value : List Char) (maxAge : ℕ) : Option HeaderValue :=
  fromStr opaqueBytes (cookieName.toList ++ '=' :: (jar.add value ++
    attributes config.httpOnly config.secure config.sameSiteOf maxAge))

/-- `write_flash_cookie`. -/
def writeFlashCookie (entries : List FlashEntry) : Option HeaderValue :=
  setCookie opaqueBytes jar config (toJson entries) maxAgeSecs

/-- `remove_flash_cookie`. -/
def removeFlashCookie : Option HeaderValue := setCookie opaqueBytes jar config [] 0

/-- `read_flash_cookie`. -/
def readFlashCookie (fromJson : List Char → Option (List FlashEntry)) (headers : HeaderMap) :
    List FlashEntry :=
  match cookieIn cookieName anyValue headers with
  | some value => ((jar.get value).bind fromJson).getD []
  | none => []

end Middleware

/-! ## The browser -/

/-- Spaces and tabs, which the browser removes around names and values. -/
def isBlank (byte : UInt8) : Bool := decide (byte = 32 ∨ byte = 9)

def trimBlank (bytes : HeaderValue) : HeaderValue := (bytes.dropWhile isBlank).rdropWhile isBlank

/-- The name and the value that a browser stores for a `Set-Cookie` field: the field up to
the first `;`, split at its first `=`. -/
def storedPair (field : HeaderValue) : Option (HeaderValue × HeaderValue) :=
  let pair := field.takeWhile (· ≠ 59)
  let name := trimBlank (pair.takeWhile (· ≠ 61))
  if 61 ∈ pair ∧ name ≠ [] then
    some (name, trimBlank ((pair.dropWhile (· ≠ 61)).drop 1))
  else none

/-- The headers of the next request. -/
def nextRequest (field : Option HeaderValue) : HeaderMap :=
  match field.bind storedPair with
  | some (name, value) => [("cookie", name ++ 61 :: value)]
  | none => []

/-! ## The JSON text -/

/-- The characters of the text that are not of a level or a message. -/
def jsonFrame : List Char :=
  JsonText.escapeAlphabet ++ ['\x7b', '\x7d', '[', ']', ':', ',', 'l', 'v', 'm', 's', 'g']

theorem mem_entryJson {entry : FlashEntry} {c : Char} (hc : c ∈ entryJson entry) :
    c ∈ jsonFrame ∨ c ∈ entry.level ++ entry.message ∧ 32 ≤ c.toNat := by
  have hlevel : ∀ c ∈ levelKey, c ∈ jsonFrame := by decide
  have hmessage : ∀ c ∈ messageKey, c ∈ jsonFrame := by decide
  rw [entryJson, List.mem_append, List.mem_append, List.mem_append, List.mem_append,
    List.mem_singleton] at hc
  rcases hc with hc | hc | hc | hc | rfl
  · exact .inl (hlevel c hc)
  · rcases JsonText.mem_quoted hc with ⟨hc, hprintable⟩ | hc
    · exact .inr ⟨List.mem_append_left _ hc, hprintable⟩
    · exact .inl (List.mem_append_left _ hc)
  · exact .inl (hmessage c hc)
  · rcases JsonText.mem_quoted hc with ⟨hc, hprintable⟩ | hc
    · exact .inr ⟨List.mem_append_right _ hc, hprintable⟩
    · exact .inl (List.mem_append_left _ hc)
  · exact .inl (by decide)

theorem mem_entryJson_of_mem {entry : FlashEntry} {c : Char}
    (hc : c ∈ entry.level ++ entry.message) (hprintable : 32 ≤ c.toNat) :
    c ∈ entryJson entry := by
  simp only [entryJson, List.mem_append]
  rcases List.mem_append.mp hc with hc | hc
  · exact .inr (.inl (JsonText.mem_quoted_of_mem hc hprintable))
  · exact .inr (.inr (.inr (.inl (JsonText.mem_quoted_of_mem hc hprintable))))

/-- An entry is read to its end, and `;` is in its strings only. -/
theorem scan_entryJson (entry : FlashEntry) :
    JsonText.scan .outside (entryJson entry) = .outside ∧
      JsonText.OnlyInside ';' .outside (entryJson entry) := by
  have hlevel : JsonText.scan .outside levelKey = .outside := by decide
  have hmessage : JsonText.scan .outside messageKey = .outside := by decide
  have hquoted : ∀ text, JsonText.OnlyInside ';' .outside (JsonText.quoted text) :=
    JsonText.onlyInside_quoted (by decide)
  have hframe : ∀ {text : List Char}, ';' ∉ text → JsonText.OnlyInside ';' .outside text :=
    fun htext => JsonText.onlyInside_of_notMem .outside htext
  constructor
  · simp only [entryJson, JsonText.scan_append, hlevel, hmessage, JsonText.scan_quoted]
    rfl
  · simp only [entryJson, JsonText.onlyInside_append, hlevel, hmessage, JsonText.scan_quoted]
    exact ⟨hframe (by decide), hquoted _, hframe (by decide), hquoted _, hframe (by decide)⟩

/-- The entries between the brackets. -/
def joined (entries : List FlashEntry) : List Char := [','].intercalate (entries.map entryJson)

theorem joined_cons_cons (entry next : FlashEntry) (rest : List FlashEntry) :
    joined (entry :: next :: rest) = entryJson entry ++ ([','] ++ joined (next :: rest)) := by
  rw [joined, List.map_cons, List.map_cons, List.intercalate_cons_cons, List.append_assoc]
  rfl

theorem joined_singleton (entry : FlashEntry) : joined [entry] = entryJson entry := by
  simp [joined]

theorem scan_joined (entries : List FlashEntry) :
    JsonText.scan .outside (joined entries) = .outside ∧
      JsonText.OnlyInside ';' .outside (joined entries) := by
  induction entries with
  | nil => exact ⟨rfl, trivial⟩
  | cons entry rest ih =>
      cases rest with
      | nil =>
          rw [joined_singleton]
          exact scan_entryJson entry
      | cons next rest =>
          have hcomma : JsonText.scan .outside [','] = .outside := by decide
          rw [joined_cons_cons, JsonText.scan_append, JsonText.onlyInside_append,
            (scan_entryJson entry).1, JsonText.scan_append, JsonText.onlyInside_append, hcomma]
          exact ⟨ih.1, (scan_entryJson entry).2,
            JsonText.onlyInside_of_notMem _ (by decide), ih.2⟩

theorem onlyInside_toJson (entries : List FlashEntry) :
    JsonText.OnlyInside ';' .outside (toJson entries) := by
  refine ⟨fun hc => absurd hc (by decide), ?_⟩
  change JsonText.OnlyInside ';' .outside (joined entries ++ [']'])
  rw [JsonText.onlyInside_append]
  exact ⟨(scan_joined entries).2, JsonText.onlyInside_of_notMem _ (by decide)⟩

/-- The characters that survive the cookie: ASCII without `;` and `DEL`. -/
def isPlain (c : Char) : Bool := decide (c.toNat < 127 ∧ c ≠ ';')

/-- The text is plain and printable if the levels and messages are plain. -/
theorem toJson_plain_iff (entries : List FlashEntry) :
    (∀ c ∈ toJson entries, isVisibleChar c = true ∧ c ≠ ';') ↔
      ∀ entry ∈ entries, ∀ c ∈ entry.level ++ entry.message, isPlain c = true := by
  constructor
  · intro hjson entry hentry c hc
    by_cases hprintable : 32 ≤ c.toNat
    · have hmem : c ∈ toJson entries := List.mem_cons_of_mem _ (List.mem_append_left _
        (Text.mem_intercalate_of_mem (List.mem_map_of_mem hentry)
          (mem_entryJson_of_mem hc hprintable)))
      obtain ⟨hvisible, hsemicolon⟩ := hjson c hmem
      rw [isVisibleChar_iff] at hvisible
      exact decide_eq_true ⟨by omega, hsemicolon⟩
    · refine decide_eq_true ⟨by omega, ?_⟩
      rintro rfl
      exact hprintable (by decide)
  · intro hplain c hc
    have hframe : ∀ c ∈ jsonFrame, isVisibleChar c = true ∧ c ≠ ';' := by decide
    rw [toJson, List.mem_cons, List.mem_append, List.mem_singleton] at hc
    rcases hc with rfl | hc | rfl
    · decide
    · rcases Text.mem_intercalate hc with hc | ⟨text, htext, hc⟩
      · rw [List.mem_singleton.mp hc]
        decide
      · obtain ⟨entry, hentry, rfl⟩ := List.mem_map.mp htext
        rcases mem_entryJson hc with hc | ⟨hc, hprintable⟩
        · exact hframe c hc
        · obtain ⟨hascii, hsemicolon⟩ := of_decide_eq_true (hplain entry hentry c hc)
          exact ⟨(isVisibleChar_iff c).mpr (.inl ⟨hprintable, hascii⟩), hsemicolon⟩
    · decide

/-! ## What comes back -/

def isBlankChar (c : Char) : Bool := decide (c = ' ' ∨ c = '\t')

theorem isBlank_byte_iff {c : Char} {byte : UInt8} (hmem : byte ∈ String.utf8EncodeChar c) :
    isBlank byte = isBlankChar c := by
  have hspace : c = ' ' ↔ c.toNat = 32 := by rw [← Char.toNat_inj]; rfl
  have htab : c = '\t' ↔ c.toNat = 9 := by rw [← Char.toNat_inj]; rfl
  have hspaceByte : byte = 32 ↔ byte.toNat = 32 := by rw [← UInt8.toNat_inj]; rfl
  have htabByte : byte = 9 ↔ byte.toNat = 9 := by rw [← UInt8.toNat_inj]; rfl
  rw [isBlank, isBlankChar, decide_eq_decide, hspace, htab, hspaceByte, htabByte]
  by_cases hascii : byte.toNat < 128
  · rw [Utf8.toNat_eq_of_mem_utf8EncodeChar hascii hmem]
  · constructor
    · omega
    · intro hc
      rw [Utf8.utf8EncodeChar_ascii (by omega), List.mem_singleton] at hmem
      rw [hmem, Utf8.toNat_byte (by omega)] at hascii
      omega

theorem dropWhile_ofText (text : List Char) :
    (ofText text).dropWhile isBlank = ofText (text.dropWhile isBlankChar) := by
  induction text with
  | nil => rfl
  | cons c rest ih =>
      obtain ⟨byte, bytes, hencode⟩ :=
        List.exists_cons_of_ne_nil (String.utf8EncodeChar_ne_nil (c := c))
      have hbyte : isBlank byte = isBlankChar c := isBlank_byte_iff (hencode ▸ List.mem_cons_self)
      cases hblank : isBlankChar c with
      | true =>
          have hall : ∀ other ∈ String.utf8EncodeChar c, isBlank other = true :=
            fun other hother => (isBlank_byte_iff hother).trans hblank
          rw [ofText_cons, List.dropWhile_append_of_pos hall, ih,
            List.dropWhile_cons_of_pos hblank]
      | false =>
          rw [List.dropWhile_cons_of_neg (by simp [hblank]), ofText_cons, hencode,
            List.cons_append, List.dropWhile_cons_of_neg (by simp [hbyte, hblank])]

theorem rdropWhile_ofText (text : List Char) :
    (ofText text).rdropWhile isBlank = ofText (text.rdropWhile isBlankChar) := by
  induction text using List.reverseRecOn with
  | nil => rfl
  | append_singleton init c ih =>
      obtain ⟨bytes, byte, hencode⟩ :=
        (List.eq_nil_or_concat' (String.utf8EncodeChar c)).resolve_left String.utf8EncodeChar_ne_nil
      have hbyte : isBlank byte = isBlankChar c :=
        isBlank_byte_iff (hencode ▸ List.mem_append_right _ (List.mem_singleton_self byte))
      have hsingle : ofText (init ++ [c]) = ofText init ++ String.utf8EncodeChar c := by simp
      cases hblank : isBlankChar c with
      | true =>
          have hall : ∀ other ∈ (String.utf8EncodeChar c).reverse, isBlank other = true :=
            fun other hother => (isBlank_byte_iff (List.mem_reverse.mp hother)).trans hblank
          rw [List.rdropWhile_concat_pos _ _ _ hblank, ← ih, hsingle, List.rdropWhile,
            List.reverse_append, List.dropWhile_append_of_pos hall, List.rdropWhile]
      | false =>
          rw [List.rdropWhile_concat_neg _ _ _ (by simp [hblank]), hsingle, hencode,
            ← List.append_assoc, List.rdropWhile_concat_neg _ _ _ (by simp [hbyte, hblank])]

/-- A signed value as the browser keeps it: up to the first `;`, without blanks at its end. -/
def keptValue (value : List Char) : List Char :=
  (value.takeWhile (· ≠ ';')).rdropWhile isBlankChar

theorem attributes_spec (httpOnly secure : Bool) (sameSite : SameSite) {maxAge : ℕ}
    (hmaxAge : maxAge ∈ [0, maxAgeSecs]) :
    (attributes httpOnly secure sameSite maxAge).head? = some ';' ∧
      ∀ c ∈ attributes httpOnly secure sameSite maxAge, isVisibleChar c = true := by
  have hboth : ∀ maxAge ∈ [0, maxAgeSecs],
      (attributes httpOnly secure sameSite maxAge).head? = some ';' ∧
        ∀ c ∈ attributes httpOnly secure sameSite maxAge, isVisibleChar c = true := by
    cases httpOnly <;> cases secure <;> cases sameSite <;> decide
  exact hboth maxAge hmaxAge

theorem cookieName_toList : cookieName.toList = ['f', 'l', 'a', 's', 'h'] := by decide

theorem takeWhile_append_semicolon (value rest : List Char) :
    (value ++ ';' :: rest).takeWhile (· ≠ ';') = value.takeWhile (· ≠ ';') := by
  induction value with
  | nil => simp
  | cons c value ih =>
      rw [List.cons_append, List.takeWhile_cons, List.takeWhile_cons, ih]

/-- The pair that is stored for a signed value. -/
theorem storedPair_ofText {value rest : List Char}
    (hfirst : ∀ c ∈ (value.takeWhile (· ≠ ';')).head?, isBlankChar c = false) :
    storedPair (ofText (cookieName.toList ++ '=' :: (value ++ ';' :: rest))) =
      some (ofText cookieName.toList, ofText (keptValue value)) := by
  have hpair : (ofText (cookieName.toList ++ '=' :: (value ++ ';' :: rest))).takeWhile (· ≠ 59) =
      ofText cookieName.toList ++ 61 :: ofText (value.takeWhile (· ≠ ';')) := by
    rw [takeWhile_ofText ';' rfl (by decide), cookieName_toList,
      ← takeWhile_append_semicolon value rest]
    rfl
  have hvalue : (ofText (value.takeWhile (· ≠ ';'))).dropWhile isBlank =
      ofText (value.takeWhile (· ≠ ';')) := by
    rw [dropWhile_ofText]
    cases hkept : value.takeWhile (· ≠ ';') with
    | nil => rfl
    | cons c kept =>
        rw [hkept] at hfirst
        rw [List.dropWhile_cons_of_neg (by simp [hfirst c rfl])]
  have htrim : trimBlank (ofText (value.takeWhile (· ≠ ';'))) = ofText (keptValue value) := by
    rw [trimBlank, hvalue, rdropWhile_ofText, keptValue]
  have hname : ofText cookieName.toList = [102, 108, 97, 115, 104] := by
    rw [cookieName_toList]
    rfl
  rw [storedPair, hpair, hname]
  have hnonempty : trimBlank [102, 108, 97, 115, 104] ≠ [] := by decide
  refine (if_pos ⟨by simp, hnonempty⟩).trans ?_
  rw [← htrim]
  rfl

/-- The field that is sent back for a signed value. -/
theorem getStr_nextRequest {value rest : List Char}
    (hfirst : ∀ c ∈ (value.takeWhile (· ≠ ';')).head?, isBlankChar c = false) :
    (nextRequest (some (ofText (cookieName.toList ++ '=' :: (value ++ ';' :: rest))))).getStr
        "cookie" =
      toStr (ofText (cookieName.toList ++ '=' :: keptValue value)) := by
  have hbytes : ofText cookieName.toList ++ 61 :: ofText (keptValue value) =
      ofText (cookieName.toList ++ '=' :: keptValue value) := by
    rw [ofText_append, ofText_cons]
    rfl
  rw [nextRequest, Option.bind_some, storedPair_ofText hfirst, ← hbytes]
  exact getStr_cookie_cons _ _

theorem isBlankChar_of_whitespace {c : Char} (hvisible : isVisibleChar c = true)
    (hspace : Text.isWhitespace c = true) : isBlankChar c = true := by
  rw [isVisibleChar_iff] at hvisible
  have hspace := of_decide_eq_true hspace
  refine decide_eq_true ?_
  rw [← Char.toNat_inj, ← Char.toNat_inj]
  change c.toNat = 32 ∨ c.toNat = 9
  omega

theorem notMem_keptValue (value : List Char) : ';' ∉ keptValue value := by
  intro hmem
  have htake := (List.rdropWhile_prefix _ _).mem hmem
  simpa using List.mem_takeWhile_imp htake

/-- What is kept begins and ends with characters that are not trimmed. -/
theorem trim_keptValue {value : List Char}
    (hfirst : ∀ c ∈ (value.takeWhile (· ≠ ';')).head?, isBlankChar c = false)
    (hvisible : ∀ c ∈ keptValue value, isVisibleChar c = true) :
    (∀ c ∈ (keptValue value).head?, Text.isWhitespace c = false) ∧
      ∀ c ∈ (keptValue value).getLast?, Text.isWhitespace c = false := by
  have hnotBlank : ∀ c ∈ keptValue value, isBlankChar c = false → Text.isWhitespace c = false := by
    intro c hc hblank
    by_contra hspace
    rw [isBlankChar_of_whitespace (hvisible c hc) (by simpa using hspace)] at hblank
    cases hblank
  constructor
  · intro c hc
    obtain ⟨blank, hkept⟩ : keptValue value <+: value.takeWhile (· ≠ ';') :=
      List.rdropWhile_prefix _ _
    apply hnotBlank c (List.mem_of_mem_head? hc)
    apply hfirst c
    rw [← hkept, List.head?_append, Option.mem_def.mp hc]
    rfl
  · intro c hc
    obtain ⟨hne, rfl⟩ := List.mem_getLast?_eq_getLast hc
    apply hnotBlank _ (List.getLast_mem hne)
    exact Bool.eq_false_iff.mpr (List.rdropWhile_last_not isBlankChar _ hne)

/-- The value is found as it was kept. -/
theorem findCookie_keptValue {value : List Char}
    (hfirst : ∀ c ∈ (value.takeWhile (· ≠ ';')).head?, isBlankChar c = false)
    (hvisible : ∀ c ∈ keptValue value, isVisibleChar c = true) :
    findCookie cookieName anyValue (cookieName.toList ++ '=' :: keptValue value) =
      some (keptValue value) := by
  obtain ⟨hhead, hlast⟩ := trim_keptValue hfirst hvisible
  have htrimField : Text.trim (cookieName.toList ++ '=' :: keptValue value) =
      cookieName.toList ++ '=' :: keptValue value := by
    apply Text.trim_eq_self
    · rw [cookieName_toList]
      intro c hc
      rw [← Option.some.inj (Option.mem_def.mp hc)]
      decide
    · intro c hc
      rw [List.getLast?_append_cons, List.getLast?_cons] at hc
      cases hkept : (keptValue value).getLast? with
      | none =>
          rw [hkept] at hc
          rw [← Option.some.inj (Option.mem_def.mp hc)]
          decide
      | some last =>
          rw [hkept] at hc hlast
          exact hlast c hc
  have hsplit : Utf8.splitOnce '=' (cookieName.toList ++ '=' :: keptValue value) =
      some (cookieName.toList, keptValue value) :=
    Utf8.splitOnce_eq_some.mpr ⟨rfl, by rw [cookieName_toList]; decide⟩
  have htrimName : Text.trim cookieName.toList = cookieName.toList := by
    rw [cookieName_toList]
    decide
  have hsemicolon : ';' ∉ cookieName.toList ++ '=' :: keptValue value := by
    rw [cookieName_toList]
    intro hmem
    rcases List.mem_append.mp hmem with hname | hvalue
    · exact absurd hname (by decide)
    · exact notMem_keptValue value (List.mem_of_ne_of_mem (by decide) hvalue)
  rw [findCookie, List.splitOn_eq_singleton hsemicolon, List.findSome?_singleton, pairValue,
    htrimField, hsplit]
  simp only [htrimName, anyValue, and_self, if_true, Text.trim_eq_self hhead hlast]

/-! ## Which messages survive -/

section Survival

variable (opaqueBytes : Bool) (config : CookieConfig) {jar : SignedJar}
  {fromJson : List Char → Option (List FlashEntry)}

theorem base64_spec {c : Char} (hc : isBase64 c = true) :
    isVisibleChar c = true ∧ c ≠ ';' ∧ isBlankChar c = false := by
  have hrange := base64_range hc
  have hsemicolon : ';'.toNat = 59 := rfl
  refine ⟨(isVisibleChar_iff c).mpr (.inl (by omega)), ?_, decide_eq_false ?_⟩
  · rintro rfl
    omega
  · rw [← Char.toNat_inj, ← Char.toNat_inj]
    change ¬(c.toNat = 32 ∨ c.toNat = 9)
    omega

/-- The signed value up to the first `;`. -/
theorem takeWhile_signed {digest json : List Char} (hdigest : ∀ c ∈ digest, isBase64 c = true) :
    (digest ++ json).takeWhile (· ≠ ';') = digest ++ json.takeWhile (· ≠ ';') := by
  apply List.takeWhile_append_of_pos
  intro c hc
  exact decide_eq_true (base64_spec (hdigest c hc)).2.1

theorem maxAgeSecs_mem : maxAgeSecs ∈ [0, maxAgeSecs] := by simp

/-- What is kept of a text that begins with a bracket. -/
theorem keptValue_signed {digest json : List Char} (hdigest : ∀ c ∈ digest, isBase64 c = true)
    (hbracket : json.head? = some '[') :
    keptValue (digest ++ json) =
      digest ++ (json.takeWhile (· ≠ ';')).rdropWhile isBlankChar := by
  have hmem : '[' ∈ json.takeWhile (· ≠ ';') := by
    cases json with
    | nil => cases hbracket
    | cons c rest =>
        obtain rfl := Option.some.inj hbracket
        rw [List.takeWhile_cons_of_pos (by decide)]
        exact List.mem_cons_self
  have hnonempty : ((json.takeWhile (· ≠ ';')).reverse.dropWhile isBlankChar).isEmpty = false := by
    rw [List.isEmpty_eq_false_iff]
    intro hnil
    rw [List.dropWhile_eq_nil_iff] at hnil
    exact absurd (hnil '[' (List.mem_reverse.mpr hmem)) (by decide)
  rw [keptValue, takeWhile_signed hdigest, List.rdropWhile, List.reverse_append,
    List.dropWhile_append, hnonempty]
  simp [List.rdropWhile]

theorem head_signed {digest : List Char} (json : List Char)
    (hdigest : ∀ c ∈ digest, isBase64 c = true) (hbracket : json.head? = some '[') :
    ∀ c ∈ ((digest ++ json).takeWhile (· ≠ ';')).head?, isBlankChar c = false := by
  intro c hc
  rw [takeWhile_signed hdigest] at hc
  cases digest with
  | nil =>
      cases json with
      | nil => cases hbracket
      | cons d rest =>
          obtain rfl := Option.some.inj hbracket
          rw [List.nil_append, List.takeWhile_cons_of_pos (by decide)] at hc
          rw [← Option.some.inj hc]
          decide
  | cons d rest =>
      rw [← Option.some.inj hc]
      exact (base64_spec (hdigest d List.mem_cons_self)).2.2

/-- The field that is set for a value. -/
theorem setCookie_eq (hjar : jar.Signs) (value : List Char) {maxAge : ℕ}
    (hmaxAge : maxAge ∈ [0, maxAgeSecs]) :
    ∃ digest rest, digest.length = digestLength ∧ (∀ c ∈ digest, isBase64 c = true) ∧
      (∀ c ∈ rest, isVisibleChar c = true) ∧ jar.add value = digest ++ value ∧
      setCookie opaqueBytes jar config value maxAge =
        fromStr opaqueBytes (cookieName.toList ++ '=' :: ((digest ++ value) ++ ';' :: rest)) := by
  obtain ⟨digest, hlength, hdigest, hadd⟩ := hjar.add_eq value
  obtain ⟨hhead, hvisible⟩ :=
    attributes_spec config.httpOnly config.secure config.sameSiteOf hmaxAge
  obtain ⟨rest, hrest⟩ : ∃ rest,
      attributes config.httpOnly config.secure config.sameSiteOf maxAge = ';' :: rest := by
    cases hattributes : attributes config.httpOnly config.secure config.sameSiteOf maxAge with
    | nil =>
        rw [hattributes] at hhead
        cases hhead
    | cons c rest =>
        rw [hattributes] at hhead
        exact ⟨rest, by rw [Option.some.inj hhead]⟩
  rw [hrest] at hvisible
  refine ⟨digest, rest, hlength, hdigest, fun c hc => hvisible c (List.mem_cons_of_mem _ hc),
    hadd, ?_⟩
  rw [setCookie, hadd, hrest]

/-- A text without `;` is kept whole. -/
theorem rdropWhile_toJson (entries : List FlashEntry) (hsemicolon : ';' ∉ toJson entries) :
    ((toJson entries).takeWhile (· ≠ ';')).rdropWhile isBlankChar = toJson entries := by
  have hall : ∀ c ∈ toJson entries, decide (c ≠ ';') = true :=
    fun c hc => decide_eq_true fun heq => hsemicolon (heq ▸ hc)
  rw [List.takeWhile_eq_self_iff.mpr hall, toJson, ← List.cons_append,
    List.rdropWhile_concat_neg _ _ _ (by decide)]

theorem visible_field {value : List Char} (hvalue : ∀ c ∈ value, isVisibleChar c = true) :
    ∀ c ∈ cookieName.toList ++ '=' :: value, isVisibleChar c = true := by
  have hname : ∀ c ∈ cookieName.toList, isVisibleChar c = true := by
    rw [cookieName_toList]
    decide
  rw [List.forall_mem_append, List.forall_mem_cons]
  exact ⟨hname, by decide, hvalue⟩

theorem visible_setCookie {digest value rest : List Char}
    (hdigest : ∀ c ∈ digest, isBase64 c = true) (hvalue : ∀ c ∈ value, isVisibleChar c = true)
    (hrest : ∀ c ∈ rest, isVisibleChar c = true) :
    ∀ c ∈ cookieName.toList ++ '=' :: ((digest ++ value) ++ ';' :: rest),
      isVisibleChar c = true := by
  apply visible_field
  rw [List.forall_mem_append, List.forall_mem_append, List.forall_mem_cons]
  exact ⟨⟨fun c hc => (base64_spec (hdigest c hc)).1, hvalue⟩, by decide, hrest⟩

/-- The cookie can always be removed. -/
theorem removeFlashCookie_ne_none (hjar : jar.Signs) :
    removeFlashCookie opaqueBytes jar config ≠ none := by
  obtain ⟨digest, rest, -, hdigest, hrest, -, heq⟩ :=
    setCookie_eq opaqueBytes config hjar [] (List.mem_cons_self (a := 0))
  rw [removeFlashCookie, heq,
    fromStr_of_visible opaqueBytes (visible_setCookie hdigest (by simp) hrest)]
  exact Option.some_ne_none _

/-- Plain messages come back. -/
theorem readFlashCookie_of_plain (hjar : jar.Signs) {entries : List FlashEntry}
    (hread : fromJson (toJson entries) = some entries)
    (hplain : ∀ c ∈ toJson entries, isVisibleChar c = true ∧ c ≠ ';') :
    readFlashCookie jar fromJson (nextRequest (writeFlashCookie opaqueBytes jar config entries)) =
      entries := by
  obtain ⟨digest, rest, -, hdigest, hrest, hadd, hwrite⟩ :=
    setCookie_eq opaqueBytes config hjar (toJson entries) maxAgeSecs_mem
  have hsemicolon : ';' ∉ toJson entries := fun hmem => (hplain _ hmem).2 rfl
  have hkept : keptValue (digest ++ toJson entries) = digest ++ toJson entries := by
    rw [keptValue_signed hdigest rfl, rdropWhile_toJson entries hsemicolon]
  have hsigned : ∀ c ∈ digest ++ toJson entries, isVisibleChar c = true :=
    List.forall_mem_append.mpr
      ⟨fun c hc => (base64_spec (hdigest c hc)).1, fun c hc => (hplain c hc).1⟩
  have hfield := visible_setCookie hdigest (fun c hc => (hplain c hc).1) hrest
  have hfirst := head_signed (toJson entries) hdigest rfl
  have hcookie : cookieIn cookieName anyValue (nextRequest (writeFlashCookie opaqueBytes jar config
      entries)) = some (jar.add (toJson entries)) := by
    rw [writeFlashCookie, hwrite, fromStr_of_visible opaqueBytes hfield, cookieIn,
      getStr_nextRequest hfirst, hkept, toStr_ofText (visible_field hsigned), Option.bind_some,
      ← hkept, findCookie_keptValue hfirst (by rwa [hkept]), hkept, hadd]
  rw [readFlashCookie, hcookie]
  simp only [hjar.get_add, Option.bind_some, hread, Option.getD_some]

/-- What is left of a text with `;` has an open string. -/
theorem scan_kept_ne_outside {entries : List FlashEntry} (hsemicolon : ';' ∈ toJson entries) :
    JsonText.scan .outside
      (((toJson entries).takeWhile (· ≠ ';')).rdropWhile isBlankChar) ≠ .outside := by
  have hinside : JsonText.scan .outside ((toJson entries).takeWhile (· ≠ ';')) = .inside := by
    obtain ⟨before, after, hjson, hbefore⟩ := List.eq_append_cons_of_mem hsemicolon
    have honly := onlyInside_toJson entries
    have htake : before.takeWhile (· ≠ ';') = before :=
      List.takeWhile_eq_self_iff.mpr fun c hc => decide_eq_true fun heq => hbefore (heq ▸ hc)
    rw [hjson] at honly ⊢
    rw [takeWhile_append_semicolon, htake]
    exact JsonText.scan_of_onlyInside honly
  have hblank : '"' ∉ ((toJson entries).takeWhile (· ≠ ';')).rtakeWhile isBlankChar := by
    intro hmem
    exact absurd (List.mem_rtakeWhile_imp hmem) (by decide)
  apply JsonText.scan_append_ne_outside hblank
  rw [List.rdropWhile_append_rtakeWhile, hinside]
  decide

/-- A kept value that is read is the whole text, or has an open string. -/
theorem fromJson_kept (hjar : jar.Signs) {entries : List FlashEntry} {digest : List Char}
    (hlength : digest.length = digestLength) (hdigest : ∀ c ∈ digest, isBase64 c = true)
    (hopen : ∀ text, JsonText.scan .outside text ≠ .outside → fromJson text = none)
    (hsemicolon : ';' ∈ toJson entries) :
    (jar.get (keptValue (digest ++ toJson entries))).bind fromJson = none := by
  cases hget : jar.get (keptValue (digest ++ toJson entries)) with
  | none => rfl
  | some value =>
      have hvalue := hjar.eq_drop hget
      rw [keptValue_signed hdigest rfl, ← hlength, List.drop_left] at hvalue
      rw [Option.bind_some, hvalue]
      exact hopen _ (scan_kept_ne_outside hsemicolon)

/-- Other messages are lost. -/
theorem readFlashCookie_of_not_plain (hjar : jar.Signs) {entries : List FlashEntry}
    (hopen : ∀ text, JsonText.scan .outside text ≠ .outside → fromJson text = none)
    (hplain : ¬∀ c ∈ toJson entries, isVisibleChar c = true ∧ c ≠ ';') :
    readFlashCookie jar fromJson (nextRequest (writeFlashCookie opaqueBytes jar config entries)) =
      [] := by
  obtain ⟨digest, rest, hlength, hdigest, -, -, hwrite⟩ :=
    setCookie_eq opaqueBytes config hjar (toJson entries) maxAgeSecs_mem
  have hfirst := head_signed (toJson entries) hdigest rfl
  rw [writeFlashCookie, hwrite]
  cases hfield : fromStr opaqueBytes
      (cookieName.toList ++ '=' :: ((digest ++ toJson entries) ++ ';' :: rest)) with
  | none => rfl
  | some field =>
      rw [eq_ofText_of_fromStr hfield, readFlashCookie, cookieIn, getStr_nextRequest hfirst]
      cases hread : toStr
          (ofText (cookieName.toList ++ '=' :: keptValue (digest ++ toJson entries))) with
      | none => rfl
      | some read =>
          have hvisible := isVisibleChar_of_toStr hread
          have hkept : ∀ c ∈ keptValue (digest ++ toJson entries), isVisibleChar c = true :=
            fun c hc => hvisible c (List.mem_append_right _ (List.mem_cons_of_mem _ hc))
          -- all of the text was kept, unless it holds a `;`
          have hsemicolon : ';' ∈ toJson entries := by
            by_contra hnone
            rw [keptValue_signed hdigest rfl, rdropWhile_toJson entries hnone] at hkept
            apply hplain
            intro c hc
            exact ⟨hkept c (List.mem_append_right _ hc), fun heq => hnone (heq ▸ hc)⟩
          rw [toStr_ofText hvisible] at hread
          rw [← Option.some.inj hread, Option.bind_some, findCookie_keptValue hfirst hkept]
          simp only [fromJson_kept hjar hlength hdigest hopen hsemicolon, Option.getD_none]

/-- **The messages that survive the cookie**: the entries are read back exactly when their
levels and messages are ASCII without `;` and `DEL`. -/
theorem readFlashCookie_writeFlashCookie_iff (hjar : jar.Signs) (entries : List FlashEntry)
    (hread : fromJson (toJson entries) = some entries)
    (hopen : ∀ text, JsonText.scan .outside text ≠ .outside → fromJson text = none) :
    readFlashCookie jar fromJson (nextRequest (writeFlashCookie opaqueBytes jar config entries)) =
        entries ↔
      ∀ entry ∈ entries, ∀ c ∈ entry.level ++ entry.message, c.toNat < 127 ∧ c ≠ ';' := by
  have hcondition : (∀ entry ∈ entries, ∀ c ∈ entry.level ++ entry.message,
      c.toNat < 127 ∧ c ≠ ';') ↔ ∀ c ∈ toJson entries, isVisibleChar c = true ∧ c ≠ ';' := by
    rw [toJson_plain_iff]
    simp only [isPlain, decide_eq_true_eq]
  rw [hcondition]
  by_cases hplain : ∀ c ∈ toJson entries, isVisibleChar c = true ∧ c ≠ ';'
  · exact iff_of_true (readFlashCookie_of_plain opaqueBytes config hjar hread hplain) hplain
  · refine iff_of_false ?_ hplain
    rw [readFlashCookie_of_not_plain opaqueBytes config hjar hopen hplain]
    rintro rfl
    exact hplain (by decide)

end Survival

/-- Signing with one digest for every value. -/
def flatJar : SignedJar where
  add value := List.replicate digestLength 'A' ++ value
  get stored :=
    if stored.take digestLength = List.replicate digestLength 'A' then
      some (stored.drop digestLength)
    else none

theorem flatJar_signs : flatJar.Signs where
  add_eq value := by
    refine ⟨List.replicate digestLength 'A', List.length_replicate, ?_, rfl⟩
    intro c hc
    rw [List.eq_of_mem_replicate hc]
    decide
  get_add value := by simp [flatJar]
  eq_drop hget := by
    simp only [flatJar] at hget
    split at hget
    · exact (Option.some.inj hget).symm
    · cases hget

/-- A reader that knows some lists of entries. -/
def readAmong (known : List (List FlashEntry)) (text : List Char) : Option (List FlashEntry) :=
  known.find? fun entries => toJson entries = text

def laxConfig : CookieConfig := { secure := false, httpOnly := true, sameSite := "lax" }

def savedEntries : List FlashEntry :=
  [{ level := ['i', 'n', 'f', 'o'], message := ['a', ',', ' ', '"', 'b', '"', '\n'] }]

theorem readFlashCookie_savedEntries :
    readFlashCookie flatJar (readAmong [savedEntries])
        (nextRequest (writeFlashCookie true flatJar laxConfig savedEntries)) = savedEntries := by
  refine (readFlashCookie_writeFlashCookie_iff true laxConfig flatJar_signs savedEntries
    (by decide) ?_).mpr (by decide)
  intro text hscan
  refine List.find?_eq_none.mpr fun entries hentries htext => hscan ?_
  rw [← of_decide_eq_true htext, List.mem_singleton.mp hentries]
  decide

def semicolonEntries : List FlashEntry :=
  [{ level := ['i', 'n', 'f', 'o'], message := ['a', ';', 'b'] }]

/-- A message with a semicolon is cut by the browser, and all entries are lost. -/
theorem readFlashCookie_semicolonEntries :
    flatJar.Signs ∧ readAmong [semicolonEntries] (toJson semicolonEntries) = some semicolonEntries ∧
      readFlashCookie flatJar (readAmong [semicolonEntries])
        (nextRequest (writeFlashCookie true flatJar laxConfig semicolonEntries)) = [] ∧
      semicolonEntries ≠ [] :=
  ⟨flatJar_signs, by decide, by decide +kernel, by decide⟩

end Modo.Flash
