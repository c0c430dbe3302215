import Modo.Flash.Cookie
import Modo.Session.Token

/-!
# Cookies in several fields

A client sends its cookie pairs in one `Cookie` field, joined with `"; "`, or in several.
The session, CSRF and flash middlewares and the locale resolver each read the first field
only, so that a cookie in a later field is not found (`cookie_fieldsOf_eq_iff`).
-/

namespace Modo.Http

/-! ## The four scanners -/

/-- Who reads a cookie, with the name it looks for. -/
inductive Scanner where
  /-- `read_signed_cookie`. -/
  | session (cookieName : String)
  /-- `CsrfService::extract_cookie_value`. -/
  | csrf (cookieName : String)
  /-- `read_flash_cookie`. -/
  | flash
  /-- `CookieResolver::resolve`. -/
  | locale (cookieName : String) (availableLocales : List (List Char))

namespace Scanner

/-- The name of the cookie. -/
def name : Scanner → String
  | session cookieName => cookieName
  | csrf cookieName => cookieName
  | flash => Flash.cookieName
  | locale cookieName _ => cookieName

/-- The values that end the loop.  Only the locale resolver passes over a value. -/
def accept : Scanner → List Char → Bool
  | session _ => anyValue
  | csrf _ => anyValue
  | flash => anyValue
  | locale _ availableLocales => fun value =>
      availableLocales.isEmpty || availableLocales.contains (Text.trim value)

/-- The cookie that the loop finds. -/
def cookie (scanner : Scanner) (headers : HeaderMap) : Option (List Char) :=
  cookieIn scanner.name scanner.accept headers

end Scanner

/-- `read_signed_cookie`. -/
def readSignedCookie (jar : SignedJar) (cookieName : String) (headers : HeaderMap) :
    Option Sessions.SessionToken :=
  (((Scanner.session cookieName).cookie headers).bind jar.get).bind Sessions.SessionToken.fromHex

/-- `CsrfService::extract_cookie_value`. -/
def extractCookieValue (cookieName : String) (headers : HeaderMap) : Option (List Char) :=
  (Scanner.csrf cookieName).cookie headers

/-- `CookieResolver`. -/
structure CookieResolver where
  cookieName : String
  availableLocales : List (List Char)

/-- `CookieResolver::resolve`. -/
def CookieResolver.resolve (resolver : CookieResolver) (parts : Parts) : Option (List Char) :=
  (Scanner.locale resolver.cookieName resolver.availableLocales).cookie parts.headers

/-! ## Fields -/

/-- The pairs of a field, joined with `"; "`. -/
def fieldOf (pairs : List HeaderValue) : HeaderValue := [59, 32].intercalate pairs

/-- One `Cookie` field for each group of pairs. -/
def fieldsOf (groups : List (List HeaderValue)) : HeaderMap :=
  groups.map fun pairs => ("cookie", fieldOf pairs)

/-- All pairs are visible ASCII. -/
def isText (pairs : List HeaderValue) : Bool := pairs.all fun pair => pair.all isVisibleAscii

/-- The characters of a value that is visible ASCII. -/
def asText (value : HeaderValue) : List Char := value.map fun byte => Char.ofNat byte.toNat

namespace Scanner

/-- The cookie that a pair is. -/
def ofPair (scanner : Scanner) (pair : HeaderValue) : Option (List Char) :=
  findCookie scanner.name scanner.accept (asText pair)

/-- One of the pairs is the cookie. -/
def Holds (scanner : Scanner) (pairs : List HeaderValue) : Prop :=
  ∃ pair ∈ pairs, scanner.ofPair pair ≠ none

end Scanner

theorem all_fieldOf (pairs : List HeaderValue) :
    (fieldOf pairs).all isVisibleAscii = isText pairs := by
  induction pairs with
  | nil => rfl
  | cons first rest ih =>
      cases rest with
      | nil => simp [fieldOf, isText]
      | cons second rest =>
          have hseparator : ([59, 32] : HeaderValue).all isVisibleAscii = true := by decide
          rw [fieldOf, List.intercalate_cons_cons, List.all_append, List.all_append, hseparator,
            Bool.and_true, ← fieldOf, ih]
          rfl

theorem asText_fieldOf (pairs : List HeaderValue) :
    asText (fieldOf pairs) = "; ".toList.intercalate (pairs.map asText) := by
  induction pairs with
  | nil => rfl
  | cons first rest ih =>
      cases rest with
      | nil => simp [fieldOf]
      | cons second rest =>
          have hseparator : asText [59, 32] = "; ".toList := by decide
          rw [fieldOf, List.intercalate_cons_cons, List.map_cons, List.map_cons,
            List.intercalate_cons_cons, ← List.map_cons, ← ih, ← hseparator]
          simp [asText, fieldOf]

/-- What is found in a field. -/
theorem cookie_cons (scanner : Scanner) (pairs : List HeaderValue) (headers : HeaderMap) :
    scanner.cookie (("cookie", fieldOf pairs) :: headers) =
      if isText pairs then pairs.findSome? scanner.ofPair else none := by
  have hstr : toStr (fieldOf pairs) =
      if isText pairs then some ("; ".toList.intercalate (pairs.map asText)) else none := by
    rw [toStr, all_fieldOf, ← asText_fieldOf]
    rfl
  rw [Scanner.cookie, cookieIn, getStr_cookie_cons, hstr]
  split_ifs with htext
  · rw [Option.bind_some]
    cases pairs with
    | nil => rfl
    | cons first rest =>
        rw [findCookie_intercalate (by simp), List.findSome?_map]
        rfl
  · rfl

theorem findSome?_ne_none_iff (scanner : Scanner) (pairs : List HeaderValue) :
    pairs.findSome? scanner.ofPair ≠ none ↔ scanner.Holds pairs := by
  rw [ne_eq, List.findSome?_eq_none_iff, not_forall]
  simp [Scanner.Holds]

theorem isText_append (first second : List HeaderValue) :
    isText (first ++ second) = (isText first && isText second) := List.all_append

/-- **Cookies over several fields**: the cookie is found as in one field exactly when it is
in the first field or in none.  Where some pair is not visible ASCII, one field with all
pairs is not read, and then the first field must not be read or must not hold the cookie. -/
theorem cookie_fieldsOf_eq_iff (scanner : Scanner) (groups : List (List HeaderValue)) :
    scanner.cookie (fieldsOf groups) = scanner.cookie (fieldsOf [groups.flatten]) ↔
      if isText groups.flatten then
        scanner.Holds (groups.headD []) ∨ ¬scanner.Holds groups.flatten
      else isText (groups.headD []) = false ∨ ¬scanner.Holds (groups.headD []) := by
  have hjoined : scanner.cookie (fieldsOf [groups.flatten]) =
      if isText groups.flatten then groups.flatten.findSome? scanner.ofPair else none :=
    cookie_cons scanner groups.flatten []
  rw [hjoined]
  cases groups with
  | nil =>
      have hnone : scanner.cookie (fieldsOf []) = none := rfl
      simp [hnone, isText, Scanner.Holds]
  | cons first rest =>
      have hsplit : scanner.cookie (fieldsOf (first :: rest)) =
          if isText first then first.findSome? scanner.ofPair else none :=
        cookie_cons scanner first (fieldsOf rest)
      rw [hsplit, List.flatten_cons, List.headD_cons, isText_append, List.findSome?_append,
        ← findSome?_ne_none_iff, ← findSome?_ne_none_iff, List.findSome?_append]
      cases isText first with
      | false => simp
      | true =>
          cases first.findSome? scanner.ofPair with
          | none => cases isText rest.flatten <;> simp [eq_comm]
          | some value => cases isText rest.flatten <;> simp

/-- The pair is `a=b`. -/
def plainPair : HeaderValue := [97, 61, 98]

/-- The pair is `s=t`. -/
def sessionPair : HeaderValue := [115, 61, 116]

/-- A session cookie in the second field is not found. -/
theorem cookie_second_field_ne :
    (Scanner.session "s").cookie (fieldsOf [[plainPair], [sessionPair]]) = none ∧
      (Scanner.session "s").cookie (fieldsOf [[plainPair, sessionPair]]) = some ['t'] := by
  decide +kernel

end Modo.Http
