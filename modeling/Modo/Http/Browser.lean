import Modo.Http.CookieFields

/-!
# Signed cookies of a browser

A browser keeps the value of a `Set-Cookie` field and sends it back among its other cookies.
Where the name and the value are made of visible characters other than `;`, the scanners of
`Modo.Http.CookieFields` find the value as it was signed (`cookie_requestFields`).
-/

namespace Modo.Http

/-- The characters that a cookie carries. -/
def isCookieChar (c : Char) : Bool := decide (32 < c.toNat ∧ c.toNat < 127 ∧ c ≠ ';')

/-- The characters of a name. -/
def isCookieNameChar (c : Char) : Bool := isCookieChar c && decide (c ≠ '=')

/-- What a browser stores under a name after one more `Set-Cookie` field. -/
def storeField (name : String) (stored : Option HeaderValue) (field : HeaderValue) :
    Option HeaderValue :=
  match Flash.storedPair field with
  | some (key, value) => if key = ofText name.toList then some value else stored
  | none => stored

/-- The `Set-Cookie` fields of a response. -/
def setCookies (headers : HeaderMap) : List HeaderValue :=
  (headers.filter fun field => field.1 == "set-cookie").map Prod.snd

/-- What a browser stores under a name after a response. -/
def storeAll (name : String) (stored : Option HeaderValue) (headers : HeaderMap) :
    Option HeaderValue :=
  (setCookies headers).foldl (storeField name) stored

/-- The pair that is sent for a stored value. -/
def storedCookie (name : String) (value : HeaderValue) : HeaderValue :=
  ofText name.toList ++ 61 :: value

/-- The headers of a request with the cookies of the browser, the stored one last. -/
def requestFields (name : String) (others : List HeaderValue) (stored : Option HeaderValue)
    (headers : HeaderMap) : HeaderMap :=
  match others ++ stored.toList.map (storedCookie name) with
  | [] => headers
  | pairs => ("cookie", fieldOf pairs) :: headers

/-! ## Texts that a cookie carries -/

theorem isCookieChar_iff {c : Char} :
    isCookieChar c = true ↔ 32 < c.toNat ∧ c.toNat < 127 ∧ c ≠ ';' := decide_eq_true_iff

theorem isVisibleChar_of_cookie {c : Char} (hc : isCookieChar c = true) :
    isVisibleChar c = true := by
  obtain ⟨hlow, hhigh, -⟩ := isCookieChar_iff.mp hc
  exact (isVisibleChar_iff c).mpr (.inl ⟨hlow.le, hhigh⟩)

theorem isBlankChar_of_cookie {c : Char} (hc : isCookieChar c = true) :
    Flash.isBlankChar c = false := by
  have hlow := (isCookieChar_iff.mp hc).1
  refine decide_eq_false ?_
  rw [← Char.toNat_inj, ← Char.toNat_inj]
  change ¬(c.toNat = 32 ∨ c.toNat = 9)
  omega

theorem isWhitespace_of_cookie {c : Char} (hc : isCookieChar c = true) :
    Text.isWhitespace c = false := by
  by_contra hspace
  have hblank := Flash.isBlankChar_of_whitespace (isVisibleChar_of_cookie hc)
    (Bool.not_eq_false _ ▸ hspace)
  rw [isBlankChar_of_cookie hc] at hblank
  cases hblank

theorem isCookieChar_of_base64 {c : Char} (hc : isBase64 c = true) : isCookieChar c = true := by
  have hrange := base64_range hc
  refine isCookieChar_iff.mpr ⟨by omega, by omega, ?_⟩
  rintro rfl
  exact absurd hc (by decide)

/-- A name of a cookie. -/
structure IsCookieName (name : List Char) : Prop where
  ne_nil : name ≠ []
  chars : ∀ c ∈ name, isCookieNameChar c = true

theorem IsCookieName.isCookieChar {name : List Char} (hname : IsCookieName name) {c : Char}
    (hc : c ∈ name) : isCookieChar c = true := by
  have hchar := hname.chars c hc
  rw [isCookieNameChar, Bool.and_eq_true] at hchar
  exact hchar.1

theorem IsCookieName.notMem {name : List Char} (hname : IsCookieName name) : '=' ∉ name := by
  intro hmem
  exact absurd (hname.chars '=' hmem) (by decide)

/-- Blanks are not trimmed where there are none. -/
theorem trimBlank_ofText {text : List Char} (htext : ∀ c ∈ text, isCookieChar c = true) :
    Flash.trimBlank (ofText text) = ofText text := by
  have hself : ∀ text : List Char, (∀ c ∈ text, isCookieChar c = true) →
      text.dropWhile Flash.isBlankChar = text := by
    intro text htext
    cases text with
    | nil => rfl
    | cons c rest =>
        rw [List.dropWhile_cons_of_neg]
        rw [isBlankChar_of_cookie (htext c List.mem_cons_self)]
        exact Bool.false_ne_true
  rw [Flash.trimBlank, Flash.dropWhile_ofText, hself text htext, Flash.rdropWhile_ofText,
    List.rdropWhile, hself text.reverse fun c hc => htext c (List.mem_reverse.mp hc),
    List.reverse_reverse]

/-- The pair that is stored for a plain value. -/
theorem storedPair_plain {name value : List Char} (hname : IsCookieName name)
    (hvalue : ∀ c ∈ value, isCookieChar c = true) (rest : List Char) :
    Flash.storedPair (ofText (name ++ '=' :: (value ++ ';' :: rest))) =
      some (ofText name, ofText value) := by
  have hnone : ∀ c ∈ name ++ '=' :: value, (c != ';') = true := by
    intro c hc
    rw [bne_iff_ne]
    rcases List.mem_append.mp hc with hc | hc
    · exact (isCookieChar_iff.mp (hname.isCookieChar hc)).2.2
    · rcases List.mem_cons.mp hc with rfl | hc
      · decide
      · exact (isCookieChar_iff.mp (hvalue c hc)).2.2
  have hcut : (ofText (name ++ '=' :: (value ++ ';' :: rest))).takeWhile (· ≠ 59) =
      ofText (name ++ '=' :: value) := by
    have hjoin : name ++ '=' :: (value ++ ';' :: rest) = (name ++ '=' :: value) ++ ';' :: rest := by
      simp
    rw [takeWhile_ofText ';' rfl (by decide), hjoin, Flash.takeWhile_append_semicolon]
    congr 1
    apply List.takeWhile_eq_self_iff.mpr
    intro c hc
    exact decide_eq_true (bne_iff_ne.mp (hnone c hc))
  have hbytes : ofText (name ++ '=' :: value) = ofText name ++ 61 :: ofText value := by
    rw [ofText_append, ofText_cons]
    rfl
  have hequals : ∀ byte ∈ ofText name, decide (byte ≠ 61) = true := by
    intro byte hbyte
    obtain ⟨c, hc, hmem⟩ := List.mem_flatMap.mp hbyte
    refine decide_eq_true ?_
    rintro rfl
    have hcode := Utf8.toNat_eq_of_mem_utf8EncodeChar (by decide) hmem
    have hchar : c = '=' := Char.toNat_inj.mp hcode.symm
    exact hname.notMem (hchar ▸ hc)
  have hkey : (ofText name ++ 61 :: ofText value).takeWhile (· ≠ 61) = ofText name := by
    rw [List.takeWhile_append_of_pos hequals]
    simp
  have hdrop : ((ofText name ++ 61 :: ofText value).dropWhile (· ≠ 61)).drop 1 = ofText value := by
    rw [List.dropWhile_append_of_pos hequals]
    simp
  have hnonempty : ofText name ≠ [] := by
    obtain ⟨c, rest, rfl⟩ := List.exists_cons_of_ne_nil hname.ne_nil
    rw [ofText_cons]
    exact List.append_ne_nil_of_left_ne_nil String.utf8EncodeChar_ne_nil _
  rw [Flash.storedPair, hcut, hbytes]
  simp only [hkey, hdrop, trimBlank_ofText fun c hc => hname.isCookieChar hc,
    trimBlank_ofText hvalue]
  exact if_pos ⟨by simp, hnonempty⟩

/-- The pair that is sent for a plain value is read as that value. -/
theorem findCookie_plain {name : String} {value : List Char} (hname : IsCookieName name.toList)
    (hvalue : ∀ c ∈ value, isCookieChar c = true) {accept : List Char → Bool}
    (haccept : accept value = true) :
    findCookie name accept (name.toList ++ '=' :: value) = some value := by
  have hchars : ∀ c ∈ name.toList ++ '=' :: value, isCookieChar c = true := by
    intro c hc
    rcases List.mem_append.mp hc with hc | hc
    · exact hname.isCookieChar hc
    · rcases List.mem_cons.mp hc with rfl | hc
      · decide
      · exact hvalue c hc
  have htrim : ∀ text : List Char, (∀ c ∈ text, isCookieChar c = true) → Text.trim text = text :=
    fun text htext => Text.trim_eq_self
      (fun c hc => isWhitespace_of_cookie (htext c (List.mem_of_mem_head? hc)))
      (fun c hc => isWhitespace_of_cookie (htext c (List.mem_of_mem_getLast? hc)))
  have hsemicolon : ';' ∉ name.toList ++ '=' :: value := by
    intro hmem
    exact absurd (hchars ';' hmem) (by decide)
  have hsplit : Utf8.splitOnce '=' (name.toList ++ '=' :: value) = some (name.toList, value) :=
    Utf8.splitOnce_eq_some.mpr ⟨rfl, hname.notMem⟩
  rw [findCookie, List.splitOn_eq_singleton hsemicolon, List.findSome?_singleton, pairValue,
    htrim _ hchars, hsplit]
  simp only [htrim _ fun c hc => hname.isCookieChar hc, haccept, and_self, if_true, htrim _ hvalue]

theorem asText_ofText {text : List Char} (htext : ∀ c ∈ text, isVisibleChar c = true) :
    asText (ofText text) = text := by
  have hread := toStr_ofText htext
  unfold toStr at hread
  split at hread
  · exact Option.some.inj hread
  · cases hread

theorem isText_ofText {text : List Char} (htext : ∀ c ∈ text, isVisibleChar c = true) :
    (ofText text).all isVisibleAscii = true := by
  have hread := toStr_ofText htext
  unfold toStr at hread
  split at hread
  · rename_i hall
    exact hall
  · cases hread

/-- What stands behind the value of a `Set-Cookie` field. -/
theorem attributes_eq_cons (httpOnly secure : Bool) (sameSite : Flash.SameSite) (maxAge : ℕ) :
    ∃ rest, Flash.attributes httpOnly secure sameSite maxAge = ';' :: rest ∧
      ∀ c ∈ rest, isVisibleChar c = true := by
  have hdigits : ∀ c ∈ (Nat.repr maxAge).toList, isVisibleChar c = true := by
    intro c hc
    rw [Nat.repr_eq_ofList_toDigits, String.toList_ofList] at hc
    have hdigit : c.isDigit = true := Nat.isDigit_of_mem_toDigits (by decide) (by decide) hc
    rw [Char.isDigit, Bool.and_eq_true, decide_eq_true_eq, decide_eq_true_eq] at hdigit
    have hlow : 48 ≤ c.toNat := hdigit.1
    have hhigh : c.toNat ≤ 57 := hdigit.2
    exact (isVisibleChar_iff c).mpr (.inl (by omega))
  obtain ⟨front, hfront⟩ : ∃ front, ∀ maxAge, Flash.attributes httpOnly secure sameSite maxAge =
      front ++ (Nat.repr maxAge).toList := ⟨_, fun _ => rfl⟩
  have hzero : 0 ∈ [0, Flash.maxAgeSecs] := by simp
  obtain ⟨hhead, hvisible⟩ := Flash.attributes_spec httpOnly secure sameSite hzero
  rw [hfront] at hhead hvisible
  cases front with
  | nil => exact absurd hhead (by decide)
  | cons c rest =>
      rw [List.cons_append, List.head?_cons, Option.some.injEq] at hhead
      subst hhead
      refine ⟨rest ++ (Nat.repr maxAge).toList, hfront maxAge, ?_⟩
      intro c hc
      rcases List.mem_append.mp hc with hc | hc
      · exact hvisible c (List.mem_append_left _ (List.mem_cons_of_mem _ hc))
      · exact hdigits c hc

/-- **A signed cookie is kept**: the field is made, and a browser stores the signed value. -/
theorem storeField_signed (opaqueBytes : Bool) {jar : SignedJar} (hjar : jar.Signs) {name : String}
    (hname : IsCookieName name.toList) {value : List Char}
    (hvalue : ∀ c ∈ value, isCookieChar c = true) (httpOnly secure : Bool)
    (sameSite : Flash.SameSite) (maxAge : ℕ) :
    (∀ c ∈ jar.add value, isCookieChar c = true) ∧
      ∃ field, fromStr opaqueBytes (name.toList ++ '=' ::
          (jar.add value ++ Flash.attributes httpOnly secure sameSite maxAge)) = some field ∧
        ∀ stored, storeField name stored field = some (ofText (jar.add value)) := by
  obtain ⟨digest, -, hdigest, hadd⟩ := hjar.add_eq value
  have hsigned : ∀ c ∈ jar.add value, isCookieChar c = true := by
    intro c hc
    rw [hadd] at hc
    rcases List.mem_append.mp hc with hc | hc
    · exact isCookieChar_of_base64 (hdigest c hc)
    · exact hvalue c hc
  obtain ⟨rest, hattributes, hrest⟩ := attributes_eq_cons httpOnly secure sameSite maxAge
  have hvisible : ∀ c ∈ name.toList ++ '=' :: (jar.add value ++ ';' :: rest),
      isVisibleChar c = true := by
    intro c hc
    simp only [List.mem_append, List.mem_cons] at hc
    rcases hc with hc | rfl | hc | rfl | hc
    · exact isVisibleChar_of_cookie (hname.isCookieChar hc)
    · decide
    · exact isVisibleChar_of_cookie (hsigned c hc)
    · decide
    · exact hrest c hc
  refine ⟨hsigned, _, hattributes ▸ fromStr_of_visible opaqueBytes hvisible, ?_⟩
  intro stored
  rw [storeField, hattributes, storedPair_plain hname hsigned]
  exact if_pos rfl

theorem visible_pair {name value : List Char} (hname : IsCookieName name)
    (hvalue : ∀ c ∈ value, isCookieChar c = true) :
    ∀ c ∈ name ++ '=' :: value, isVisibleChar c = true := by
  intro c hc
  rcases List.mem_append.mp hc with hc | hc
  · exact isVisibleChar_of_cookie (hname.isCookieChar hc)
  · rcases List.mem_cons.mp hc with rfl | hc
    · decide
    · exact isVisibleChar_of_cookie (hvalue c hc)

theorem storedCookie_ofText (name : String) (value : List Char) :
    storedCookie name (ofText value) = ofText (name.toList ++ '=' :: value) := by
  rw [storedCookie, ofText_append, ofText_cons]
  rfl

/-- The field of several pairs as a text. -/
theorem getStr_fieldOf {pairs : List HeaderValue} (hpairs : isText pairs = true)
    (headers : HeaderMap) :
    HeaderMap.getStr (("cookie", fieldOf pairs) :: headers) "cookie" =
      some ("; ".toList.intercalate (pairs.map asText)) := by
  rw [getStr_cookie_cons, toStr, if_pos ((all_fieldOf pairs).trans hpairs), ← asText_fieldOf]
  rfl

theorem getStr_fieldOf_eq_none {pairs : List HeaderValue} (hpairs : isText pairs = false)
    (headers : HeaderMap) :
    HeaderMap.getStr (("cookie", fieldOf pairs) :: headers) "cookie" = none := by
  rw [getStr_cookie_cons, toStr, if_neg]
  rw [all_fieldOf, hpairs]
  exact Bool.false_ne_true

/-! ## What a scanner finds -/

namespace Scanner

variable {scanner : Scanner} {others : List HeaderValue}

/-- The cookie of a stored value, on its own. -/
def ofStored (scanner : Scanner) (value : HeaderValue) : Option (List Char) :=
  scanner.cookie [("cookie", fieldOf [storedCookie scanner.name value])]

/-- A plain value is found. -/
theorem ofStored_plain {value : List Char} (hname : IsCookieName scanner.name.toList)
    (hvalue : ∀ c ∈ value, isCookieChar c = true) (haccept : scanner.accept value = true) :
    scanner.ofStored (ofText value) = some value := by
  have hvisible := visible_pair hname hvalue
  rw [ofStored, storedCookie_ofText, cookie_cons, isText, List.all_cons, isText_ofText hvisible,
    List.all_nil, Bool.and_self, if_pos rfl, List.findSome?_singleton, ofPair,
    asText_ofText hvisible]
  exact findCookie_plain hname hvalue haccept

/-- Other cookies stand in front of the stored one. -/
theorem cookie_requestFields (hothers : isText others = true) (hnone : ¬scanner.Holds others)
    (stored : Option HeaderValue) {headers : HeaderMap}
    (hheaders : scanner.cookie headers = none) :
    scanner.cookie (requestFields scanner.name others stored headers) =
      stored.bind scanner.ofStored := by
  have hskip : others.findSome? scanner.ofPair = none := by
    by_contra hsome
    exact hnone ((findSome?_ne_none_iff scanner others).mp hsome)
  cases stored with
  | none =>
      rw [requestFields, Option.toList_none, List.map_nil, List.append_nil]
      cases others with
      | nil => exact hheaders
      | cons first rest =>
          simp only [Option.bind_none]
          rw [cookie_cons, if_pos hothers, hskip]
  | some value =>
      obtain ⟨first, rest, hpairs⟩ := List.exists_cons_of_ne_nil
        (List.append_ne_nil_of_right_ne_nil others
          (List.cons_ne_nil (storedCookie scanner.name value) []))
      rw [requestFields, Option.toList_some, List.map_singleton, hpairs]
      simp only
      rw [cookie_cons, ← hpairs, isText_append, hothers, Bool.true_and, List.findSome?_append,
        hskip, Option.none_or, Option.bind_some, ofStored, cookie_cons]

end Scanner

end Modo.Http
