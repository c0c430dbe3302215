import Modo.Http.Headers
import Modo.Lib.Ascii
import Modo.Lib.Text

/-!
# Cookies of a request

The session, CSRF, flash and locale code and the JWT sources each read the `Cookie` header
on their own, with the same loop: the field is split at `;`, each part is trimmed and split
at its first `=`, and the first pair of the right name is taken.  They differ in which
values they accept and in what they do with the value.

`findCookie_intercalate` says what the loop does with pairs that are joined by `"; "`.
-/

namespace Modo.Http

/-- The value of one part of the field, if the part is a pair of that name and its value is
accepted. -/
def pairValue (name : String) (accept : List Char → Bool) (pair : List Char) :
    Option (List Char) :=
  match Utf8.splitOnce '=' (Text.trim pair) with
  | some (key, value) =>
      if Text.trim key = name.toList ∧ accept value = true then some (Text.trim value) else none
  | none => none

/-- The loop over the parts of the field. -/
def findCookie (name : String) (accept : List Char → Bool) (field : List Char) :
    Option (List Char) :=
  (field.splitOn ';').findSome? (pairValue name accept)

/-- The loop over the `Cookie` field, which is the first one. -/
def cookieIn (name : String) (accept : List Char → Bool) (headers : HeaderMap) :
    Option (List Char) :=
  (headers.getStr "cookie").bind (findCookie name accept)

/-- Every value is accepted. -/
def anyValue (_ : List Char) : Bool := true

/-- `CookieJar::signed` under a key: the value that is stored for a value, and the value of
a stored one whose signature verifies. -/
structure SignedJar where
  add : List Char → List Char
  get : List Char → Option (List Char)

/-- The characters of a digest in base64. -/
def isBase64 (c : Char) : Bool := c.isAlphanum || c == '+' || c == '/' || c == '='

theorem base64_range {c : Char} (hc : isBase64 c = true) :
    43 ≤ c.toNat ∧ c.toNat ≤ 57 ∨ 61 ≤ c.toNat ∧ c.toNat < 127 := by
  simp only [isBase64, Bool.or_eq_true, Ascii.isAlphanum_iff, beq_iff_eq] at hc
  rw [← Char.toNat_inj, ← Char.toNat_inj, ← Char.toNat_inj] at hc
  change ((_ ∨ c.toNat = 43) ∨ c.toNat = 47) ∨ c.toNat = 61 at hc
  omega

theorem isVisibleChar_of_base64 {c : Char} (hc : isBase64 c = true) : isVisibleChar c = true := by
  have hrange := base64_range hc
  exact (isVisibleChar_iff c).mpr (.inl (by omega))

/-- The length of a digest in base64. -/
def digestLength : ℕ := 44

/-- What the cookie crate documents: the digest stands before the value, a signed value
verifies, and a value that verifies is the part behind the digest. -/
structure SignedJar.Signs (jar : SignedJar) : Prop where
  add_eq : ∀ value, ∃ digest : List Char, digest.length = digestLength ∧
    (∀ c ∈ digest, isBase64 c = true) ∧ jar.add value = digest ++ value
  get_add : ∀ value, jar.get (jar.add value) = some value
  eq_drop : ∀ {stored value}, jar.get stored = some value → value = stored.drop digestLength

theorem cookie_toLower : "cookie".toLower = "cookie" := by decide +kernel

@[simp] theorem getStr_cookie_cons (value : HeaderValue) (headers : HeaderMap) :
    HeaderMap.getStr (("cookie", value) :: headers) "cookie" = toStr value := by
  rw [HeaderMap.getStr, HeaderMap.get, cookie_toLower, List.lookup_cons_self, Option.bind_some]

/-! ## Joined pairs -/

variable {name : String} {accept : List Char → Bool}

theorem pairValue_cons_space (pair : List Char) :
    pairValue name accept (' ' :: pair) = pairValue name accept pair := by
  rw [pairValue, Text.trim_cons_of_whitespace (by decide), pairValue]

theorem findCookie_cons_space (field : List Char) :
    findCookie name accept (' ' :: field) = findCookie name accept field := by
  obtain ⟨first, rest, hsplit⟩ := List.exists_cons_of_ne_nil (List.splitOn_ne_nil ';' field)
  rw [findCookie, findCookie, List.splitOn_cons_eq_if_modifyHead, if_neg (by decide), hsplit,
    List.modifyHead_cons, List.findSome?_cons, List.findSome?_cons, pairValue_cons_space]

theorem findCookie_append (first second : List Char) :
    findCookie name accept (first ++ "; ".toList ++ second) =
      (findCookie name accept first).or (findCookie name accept second) := by
  have hjoin : first ++ "; ".toList ++ second = first ++ ';' :: ' ' :: second := by simp
  rw [hjoin, findCookie, List.splitOn_append_cons_self, List.findSome?_append]
  exact congrArg _ (findCookie_cons_space second)

/-- The first pair that is accepted is found. -/
theorem findCookie_intercalate {pairs : List (List Char)} (hpairs : pairs ≠ []) :
    findCookie name accept ("; ".toList.intercalate pairs) =
      pairs.findSome? (findCookie name accept) := by
  induction pairs with
  | nil => exact absurd rfl hpairs
  | cons first rest ih =>
      cases rest with
      | nil => simp
      | cons second rest =>
          rw [List.intercalate_cons_cons, findCookie_append, ih (by simp)]
          cases hfirst : findCookie name accept first with
          | none =>
              have hskip : (second :: rest).findSome? (findCookie name accept) =
                  (first :: second :: rest).findSome? (findCookie name accept) :=
                (List.findSome?_cons_of_isNone (by simp [hfirst])).symm
              rw [Option.none_or, hskip]
          | some value =>
              rw [Option.some_or, List.findSome?_cons_of_isSome (by simp [hfirst]), hfirst]

end Modo.Http
