import Modo.Lib.StableSort
import Modo.Lib.WebUrl
import Modo.Storage.Signing

/-!
# What is signed is written in one way

`uri_encode` writes bytes so that percent-decoding reads them again, and with nothing but
unreserved characters, uppercase escapes and, where they are kept, slashes.

The headers of a request are sorted by their names before they are signed.  Where the names differ,
the order in which the headers were supplied is lost.
-/

namespace Modo.Storage

open Sorting
open WebUrl (percentDecode hexByte)

/-! ## Bytes -/

/-- What `uri_encode` writes. -/
def encodeBytes (encodeSlash : Bool) (bytes : List UInt8) : List Char :=
  bytes.flatMap (encodeByte encodeSlash)

/-- The unreserved characters of URIs. -/
def isUnreservedChar (c : Char) : Bool :=
  c.isAlphanum || c == '_' || c == '-' || c == '.' || c == '~'

def isUpperHex (c : Char) : Bool := decide ('0' ≤ c ∧ c ≤ '9' ∨ 'A' ≤ c ∧ c ≤ 'F')

/-- A text of unreserved characters, uppercase escapes and, unless they are encoded, slashes. -/
inductive IsEncoded (encodeSlash : Bool) : List Char → Prop where
  | nil : IsEncoded encodeSlash []
  | unreserved {c : Char} {text : List Char} (hc : isUnreservedChar c = true)
      (htext : IsEncoded encodeSlash text) : IsEncoded encodeSlash (c :: text)
  | slash {text : List Char} (hslash : encodeSlash = false) (htext : IsEncoded encodeSlash text) :
      IsEncoded encodeSlash ('/' :: text)
  | escape {first second : Char} {text : List Char} (hfirst : isUpperHex first = true)
      (hsecond : isUpperHex second = true) (htext : IsEncoded encodeSlash text) :
      IsEncoded encodeSlash ('%' :: first :: second :: text)

theorem hexByte_spec : ∀ n : Fin 256,
    hexByte (hexDigitUpper (n / 16)) (hexDigitUpper (n % 16)) = some (UInt8.ofNat n) ∧
      isUpperHex (hexDigitUpper (n / 16)) = true ∧ isUpperHex (hexDigitUpper (n % 16)) = true := by
  decide +kernel

theorem isUnreserved_spec : ∀ n : Fin 256, isUnreserved (UInt8.ofNat n) = true →
    isUnreservedChar (Char.ofNat n) = true ∧ Char.ofNat n ≠ '%' ∧
      String.utf8EncodeChar (Char.ofNat n) = [UInt8.ofNat n] := by
  decide +kernel

/-- A byte is written as itself, as a slash, or as an escape. -/
theorem encodeByte_cases (encodeSlash : Bool) (byte : UInt8) :
    (∃ c, encodeByte encodeSlash byte = [c] ∧ isUnreservedChar c = true ∧ c ≠ '%' ∧
        String.utf8EncodeChar c = [byte]) ∨
      (encodeByte encodeSlash byte = ['/'] ∧ encodeSlash = false ∧ byte = 47) ∨
      ∃ first second, encodeByte encodeSlash byte = ['%', first, second] ∧
        hexByte first second = some byte ∧ isUpperHex first = true ∧ isUpperHex second = true := by
  have hbyte : UInt8.ofNat byte.toNat = byte := UInt8.ofNat_toNat
  by_cases hunreserved : isUnreserved byte = true
  · have hspec := isUnreserved_spec byte.toFin
    rw [show UInt8.ofNat byte.toFin = byte from hbyte] at hspec
    obtain ⟨hc, hpercent, hutf8⟩ := hspec hunreserved
    exact .inl ⟨_, if_pos hunreserved, hc, hpercent, hutf8⟩
  · by_cases hslash : byte = 47 ∧ encodeSlash = false
    · exact .inr (.inl ⟨by rw [encodeByte, if_neg hunreserved, if_pos hslash], hslash.2, hslash.1⟩)
    · obtain ⟨hhex, hfirst, hsecond⟩ := hexByte_spec byte.toFin
      rw [show UInt8.ofNat byte.toFin = byte from hbyte] at hhex
      refine .inr (.inr ⟨_, _, ?_, hhex, hfirst, hsecond⟩)
      rw [encodeByte, if_neg hunreserved, if_neg hslash]
      rfl

theorem percentDecode_cons {c : Char} (hc : c ≠ '%') (rest : List Char) :
    percentDecode (c :: rest) = String.utf8EncodeChar c ++ percentDecode rest := by
  rw [percentDecode]
  intro first second tail heq
  exact absurd heq hc

/-- One byte is read back, whatever follows. -/
theorem percentDecode_encodeByte (encodeSlash : Bool) (byte : UInt8) (rest : List Char) :
    percentDecode (encodeByte encodeSlash byte ++ rest) = byte :: percentDecode rest := by
  rcases encodeByte_cases encodeSlash byte with ⟨c, htext, -, hc, hutf8⟩ | ⟨htext, -, rfl⟩ |
    ⟨first, second, htext, hhex, -⟩
  · rw [htext, List.singleton_append, percentDecode_cons hc, hutf8, List.singleton_append]
  · rw [htext, List.singleton_append, percentDecode_cons (by decide)]
    rfl
  · rw [htext, List.cons_append, List.cons_append, List.singleton_append, percentDecode, hhex]

theorem percentDecode_encodeBytes (encodeSlash : Bool) (bytes : List UInt8) :
    percentDecode (encodeBytes encodeSlash bytes) = bytes := by
  induction bytes with
  | nil => rfl
  | cons byte rest ih =>
      rw [encodeBytes, List.flatMap_cons, percentDecode_encodeByte]
      exact congrArg (byte :: ·) ih

theorem isEncoded_encodeBytes (encodeSlash : Bool) (bytes : List UInt8) :
    IsEncoded encodeSlash (encodeBytes encodeSlash bytes) := by
  induction bytes with
  | nil => exact .nil
  | cons byte rest ih =>
      rw [encodeBytes, List.flatMap_cons]
      rcases encodeByte_cases encodeSlash byte with ⟨c, htext, hc, -⟩ | ⟨htext, hslash, -⟩ |
        ⟨first, second, htext, -, hfirst, hsecond⟩
      · rw [htext]
        exact .unreserved hc ih
      · rw [htext]
        exact .slash hslash ih
      · rw [htext]
        exact .escape hfirst hsecond ih

theorem encodeBytes_injective (encodeSlash : Bool) :
    Function.Injective (encodeBytes encodeSlash) := by
  intro first second heq
  calc
    first = percentDecode (encodeBytes encodeSlash first) :=
      (percentDecode_encodeBytes encodeSlash first).symm
    _ = percentDecode (encodeBytes encodeSlash second) := by rw [heq]
    _ = second := percentDecode_encodeBytes encodeSlash second

theorem uriEncode_injective (encodeSlash : Bool) :
    Function.Injective fun input => uriEncode input encodeSlash := by
  intro first second heq
  exact asBytes_injective (encodeBytes_injective encodeSlash heq)

/-! ## Headers -/

section Headers

-- `str::to_lowercase`
variable (toLowercase : List Char → List Char)

/-- The names of headers, which have no case. -/
def headerNames (headers : List (List Char × List Char)) : List (List Char) :=
  headers.map fun header => toLowercase header.1

/-- The headers that are signed do not depend on the order of headers with different names. -/
theorem canonicalRequest_perm {params : SigningParams}
    {extraHeaders : List (List Char × List Char)} (hperm : extraHeaders.Perm params.extraHeaders)
    (hnames : (headerNames toLowercase params.extraHeaders).Nodup) :
    canonicalRequest toLowercase { params with extraHeaders := extraHeaders } =
      canonicalRequest toLowercase params := by
  let lower : List Char × List Char → List Char × List Char := fun header =>
    (toLowercase header.1, header.2)
  let base := [(hostName, params.host), ("x-amz-content-sha256".toList, params.payloadHash),
    ("x-amz-date".toList, amzDate params.now)]
  have hlower : (extraHeaders.map lower).Perm (params.extraHeaders.map lower) := hperm.map lower
  have hnodup : ((params.extraHeaders.map lower).map Prod.fst).Nodup := by
    rwa [List.map_map]
  have hle : (fun a b : List Char × List Char => !decide (b.1 < a.1)) =
      fun a b => decide (a.1 ≤ b.1) := by
    funext a b
    exact (decide_not).symm.trans (decide_eq_decide.mpr not_lt)
  have hheaders : (base ++ extraHeaders.map lower).mergeSort (fun a b => !decide (b.1 < a.1)) =
      (base ++ params.extraHeaders.map lower).mergeSort fun a b => !decide (b.1 < a.1) := by
    rw [hle]
    refine eq_of_filter_eq (pairwise_mergeSort_key Prod.fst _)
      (pairwise_mergeSort_key Prod.fst _) fun key => ?_
    rw [filter_mergeSort_key, filter_mergeSort_key, List.filter_append, List.filter_append,
      filter_eq_of_perm hlower.symm hnodup]
  rw [canonicalRequest, canonicalRequest]
  exact congrArg (fun headers => CanonicalRequest.mk params.method params.canonicalUri
    (sortQuery params.queryString) headers params.payloadHash) hheaders

theorem signRequest_perm (crypto : Crypto) {params : SigningParams}
    {extraHeaders : List (List Char × List Char)} (hperm : extraHeaders.Perm params.extraHeaders)
    (hnames : (headerNames toLowercase params.extraHeaders).Nodup) :
    signRequest toLowercase crypto { params with extraHeaders := extraHeaders } =
      signRequest toLowercase crypto params := by
  have hrequest := canonicalRequest_perm toLowercase hperm hnames
  unfold signRequest
  generalize canonicalRequest toLowercase { params with extraHeaders := extraHeaders } = other
    at hrequest ⊢
  rw [hrequest]

/-- What is encoded is read back, in a text of the right characters and of no other input, and
the signature does not depend on the order of the headers. -/
theorem signs_uniquely (encodeSlash : Bool) (crypto : Crypto) {params : SigningParams}
    {extraHeaders : List (List Char × List Char)} (hperm : extraHeaders.Perm params.extraHeaders)
    (hnames : (headerNames toLowercase params.extraHeaders).Nodup) :
    (∀ bytes, percentDecode (encodeBytes encodeSlash bytes) = bytes ∧
        IsEncoded encodeSlash (encodeBytes encodeSlash bytes)) ∧
      (∀ input, uriEncode input encodeSlash = encodeBytes encodeSlash (asBytes input)) ∧
      Function.Injective (encodeBytes encodeSlash) ∧
      Function.Injective (fun input => uriEncode input encodeSlash) ∧
      signRequest toLowercase crypto { params with extraHeaders := extraHeaders } =
        signRequest toLowercase crypto params := by
  refine ⟨fun bytes => ⟨percentDecode_encodeBytes encodeSlash bytes,
    isEncoded_encodeBytes encodeSlash bytes⟩, fun input => rfl, encodeBytes_injective encodeSlash,
    uriEncode_injective encodeSlash, signRequest_perm toLowercase crypto hperm hnames⟩

end Headers

/-- A request with two headers of its own. -/
def taggedParams : SigningParams where
  accessKey := "AKIA".toList
  secretKey := "secret".toList
  region := "us-east-1".toList
  method := "PUT".toList
  canonicalUri := "/photos/a%20b".toList
  host := "s3.example.com".toList
  queryString := []
  extraHeaders := [("x-amz-acl".toList, "public-read".toList),
    ("Content-Type".toList, "image/png".toList)]
  payloadHash := emptySha256
  now := epoch

theorem signRequest_swapped :
    signRequest lowerName plainCrypto { taggedParams with
      extraHeaders := [("Content-Type".toList, "image/png".toList),
        ("x-amz-acl".toList, "public-read".toList)] } =
      signRequest lowerName plainCrypto taggedParams :=
  (signs_uniquely lowerName false plainCrypto (List.Perm.swap _ _ _) (by decide)).2.2.2.2

end Modo.Storage
