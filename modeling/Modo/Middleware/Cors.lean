import Modo.Http.Headers
import Modo.Lib.Text

/-!
# Cross-origin requests

`cors` makes a layer from the listed origins, `cors_with` one from a predicate; `urls` is the
predicate of a list.  `cors` drops the origins that are no header value, and only then asks
whether any are left: when none is, the layer allows every origin, as for an empty list.

`failsClosed_iff` says that this is the one case in which the two layers differ.

`AllowOrigin` and `CorsLayer` are those of `tower_http`.  The parsers of methods and header
names are parameters, and so is what the `http` crate accepts beyond visible ASCII.
-/

namespace Modo.Cors

open Http (HeaderValue Parts ofText fromStr toStr isVisibleChar)

/-- `CorsConfig`. -/
structure CorsConfig where
  origins : List (List Char) := []
  methods : List (List Char) :=
    ["GET".toList, "POST".toList, "PUT".toList, "DELETE".toList, "PATCH".toList]
  headers : List (List Char) := ["Content-Type".toList, "Authorization".toList]
  maxAgeSecs : ℕ := 86400
  allowCredentials : Bool := true

/-- `AllowOrigin`. -/
inductive AllowOrigin where
  | any
  | list (origins : List HeaderValue)
  | predicate (allowed : HeaderValue → Parts → Bool)

/-- The origin is sent back in `Access-Control-Allow-Origin`, or `*` is. -/
def AllowOrigin.allows (origin : HeaderValue) (parts : Parts) : AllowOrigin → Bool
  | any => true
  | list origins => origins.contains origin
  | predicate allowed => allowed origin parts

/-- `AllowOrigin::list`, which panics on the wildcard. -/
def AllowOrigin.ofList (origins : List HeaderValue) : Option AllowOrigin :=
  if ofText ['*'] ∈ origins then none else some (.list origins)

/-- `CorsLayer`. -/
structure CorsLayer (Method HeaderName : Type) where
  allowOrigin : AllowOrigin
  allowMethods : List Method
  allowHeaders : List HeaderName
  maxAgeSecs : ℕ
  allowCredentials : Bool

section Layers

variable {Method HeaderName : Type} (parseMethod : List Char → Option Method)
  (parseHeaderName : List Char → Option HeaderName) (opaqueBytes : Bool)

/-- `cors`. -/
def cors (config : CorsConfig) : Option (CorsLayer Method HeaderName) :=
  let origins := config.origins.filterMap (fromStr opaqueBytes)
  let methods := config.methods.filterMap parseMethod
  let headers := config.headers.filterMap parseHeaderName
  if origins.isEmpty then some ⟨.any, methods, headers, config.maxAgeSecs, false⟩
  else
    (AllowOrigin.ofList origins).map fun allowOrigin =>
      ⟨allowOrigin, methods, headers, config.maxAgeSecs, config.allowCredentials⟩

/-- `cors_with`. -/
def corsWith (config : CorsConfig) (predicate : HeaderValue → Parts → Bool) :
    CorsLayer Method HeaderName where
  allowOrigin := .predicate predicate
  allowMethods := config.methods.filterMap parseMethod
  allowHeaders := config.headers.filterMap parseHeaderName
  maxAgeSecs := config.maxAgeSecs
  allowCredentials := config.allowCredentials

end Layers

/-- `urls`. -/
def urls (origins : List (List Char)) (origin : HeaderValue) (_ : Parts) : Bool :=
  ((toStr origin).map fun text => origins.contains text).getD false

/-! ## Texts and header values -/

/-- Different texts have different bytes. -/
theorem ofText_injective {text other : List Char} (heq : ofText text = ofText other) :
    text = other := by
  have hbytes : Utf8.asBytes (String.ofList text) = Utf8.asBytes (String.ofList other) := by
    rw [Utf8.asBytes, Utf8.asBytes, String.toList_ofList, String.toList_ofList]
    exact heq
  exact String.ofList_injective (Utf8.asBytes_injective hbytes)

theorem eq_of_fromStr {opaqueBytes : Bool} {text origin : List Char}
    (hvalue : fromStr opaqueBytes text = some (ofText origin)) : text = origin :=
  (ofText_injective (Http.eq_ofText_of_fromStr hvalue)).symm

/-! ## The allowed origins -/

/-- A visible origin is among the parsed ones exactly when it is listed. -/
theorem mem_filterMap_fromStr {opaqueBytes : Bool} {origin : List Char}
    (hvisible : ∀ c ∈ origin, isVisibleChar c = true) (origins : List (List Char)) :
    ofText origin ∈ origins.filterMap (fromStr opaqueBytes) ↔ origin ∈ origins := by
  rw [List.mem_filterMap]
  constructor
  · intro ⟨text, hmem, hvalue⟩
    rwa [eq_of_fromStr hvalue] at hmem
  · intro hmem
    exact ⟨origin, hmem, Http.fromStr_of_visible opaqueBytes hvisible⟩

theorem urls_iff {origin : List Char} (hvisible : ∀ c ∈ origin, isVisibleChar c = true)
    (origins : List (List Char)) (parts : Parts) :
    urls origins (ofText origin) parts = true ↔ origin ∈ origins := by
  rw [urls, Http.toStr_ofText hvisible, Option.map_some, Option.getD_some, List.contains_iff_mem]

section Agreement

variable {Method HeaderName : Type} {parseMethod : List Char → Option Method}
  {parseHeaderName : List Char → Option HeaderName} {opaqueBytes : Bool} {config : CorsConfig}

/-- Some listed origin is a header value. -/
def Parses (opaqueBytes : Bool) (config : CorsConfig) : Prop :=
  ∃ origin ∈ config.origins, (fromStr opaqueBytes origin).isSome = true

/-- An origin that is left makes the layer that of a list. -/
theorem cors_of_parses (hstar : ['*'] ∉ config.origins) (hparses : Parses opaqueBytes config) :
    cors parseMethod parseHeaderName opaqueBytes config =
      some ⟨.list (config.origins.filterMap (fromStr opaqueBytes)),
        config.methods.filterMap parseMethod, config.headers.filterMap parseHeaderName,
        config.maxAgeSecs, config.allowCredentials⟩ := by
  obtain ⟨origin, hmem, hsome⟩ := hparses
  obtain ⟨value, hvalue⟩ := Option.isSome_iff_exists.mp hsome
  have hleft : value ∈ config.origins.filterMap (fromStr opaqueBytes) :=
    List.mem_filterMap.mpr ⟨origin, hmem, hvalue⟩
  have hnonempty : ¬ (config.origins.filterMap (fromStr opaqueBytes)).isEmpty = true := by
    rw [List.isEmpty_iff]
    exact List.ne_nil_of_mem hleft
  have hwildcard : ofText ['*'] ∉ config.origins.filterMap (fromStr opaqueBytes) := by
    rwa [mem_filterMap_fromStr (by decide)]
  rw [cors, if_neg hnonempty, AllowOrigin.ofList, if_neg hwildcard]
  rfl

/-- When none is left, every origin is allowed. -/
theorem cors_of_not_parses (hparses : ¬ Parses opaqueBytes config) :
    cors parseMethod parseHeaderName opaqueBytes config =
      some ⟨.any, config.methods.filterMap parseMethod, config.headers.filterMap parseHeaderName,
        config.maxAgeSecs, false⟩ := by
  have hempty : config.origins.filterMap (fromStr opaqueBytes) = [] := by
    rw [List.filterMap_eq_nil_iff]
    intro origin hmem
    rw [← Option.not_isSome_iff_eq_none]
    exact fun hsome => hparses ⟨origin, hmem, hsome⟩
  rw [cors, hempty]
  rfl

end Agreement

/-- The static layer is no layer for any origin, and it and the layer of the predicate allow
exactly the listed origins. -/
def FailsClosed {Method HeaderName : Type} (parseMethod : List Char → Option Method)
    (parseHeaderName : List Char → Option HeaderName) (opaqueBytes : Bool)
    (config : CorsConfig) : Prop :=
  ∃ layer, cors parseMethod parseHeaderName opaqueBytes config = some layer ∧
    layer.allowOrigin ≠ .any ∧
    ∀ (origin : List Char) (parts : Parts), (∀ c ∈ origin, isVisibleChar c = true) →
      (layer.allowOrigin.allows (ofText origin) parts =
        (corsWith parseMethod parseHeaderName config (urls config.origins)).allowOrigin.allows
          (ofText origin) parts) ∧
      (layer.allowOrigin.allows (ofText origin) parts = true ↔ origin ∈ config.origins)

theorem FailsClosed.parses {Method HeaderName : Type} {parseMethod : List Char → Option Method}
    {parseHeaderName : List Char → Option HeaderName} {opaqueBytes : Bool} {config : CorsConfig}
    (hclosed : FailsClosed parseMethod parseHeaderName opaqueBytes config) :
    Parses opaqueBytes config := by
  obtain ⟨layer, hlayer, hnotAny, -⟩ := hclosed
  by_contra hparses
  rw [cors_of_not_parses hparses] at hlayer
  obtain rfl := Option.some.inj hlayer
  exact hnotAny rfl

/-- **The allow-list.**  It fails closed exactly when one of its origins is a header value. -/
theorem failsClosed_iff {Method HeaderName : Type} (parseMethod : List Char → Option Method)
    (parseHeaderName : List Char → Option HeaderName) (opaqueBytes : Bool) (config : CorsConfig)
    (hstar : ['*'] ∉ config.origins) :
    FailsClosed parseMethod parseHeaderName opaqueBytes config ↔ Parses opaqueBytes config := by
  constructor
  · exact FailsClosed.parses
  · intro hparses
    refine ⟨_, cors_of_parses hstar hparses, AllowOrigin.noConfusion, ?_⟩
    intro origin parts hvisible
    have hlisted : (config.origins.filterMap (fromStr opaqueBytes)).contains (ofText origin) =
        true ↔ origin ∈ config.origins := by
      rw [List.contains_iff_mem, mem_filterMap_fromStr hvisible]
    refine ⟨?_, hlisted⟩
    rw [Bool.eq_iff_iff]
    exact hlisted.trans (urls_iff hvisible config.origins parts).symm

/-- A list with one origin that is a header value. -/
theorem failsClosed_oneParses :
    FailsClosed some some false
      { origins := ["https://app.example.com".toList, "https://app.example.org\n".toList] } :=
  (failsClosed_iff some some false _ (by decide)).mpr
    ⟨"https://app.example.com".toList, by decide, by decide⟩

/-- The one listed origin ends with a line break: the layer allows any other origin, and the
layer of the predicate does not. -/
theorem lineBreak_allowsAny :
    ¬ FailsClosed some some false { origins := ["https://app.example.com\n".toList] } ∧
    (∃ layer, cors some some false { origins := ["https://app.example.com\n".toList] } =
        some layer ∧
      layer.allowOrigin.allows (ofText "https://evil.example".toList) ⟨[], none⟩ = true) ∧
    (corsWith some some { origins := ["https://app.example.com\n".toList] }
        (urls ["https://app.example.com\n".toList])).allowOrigin.allows
      (ofText "https://evil.example".toList) ⟨[], none⟩ = false := by
  have hparses : ¬ Parses false { origins := ["https://app.example.com\n".toList] } := by
    rintro ⟨origin, hmem, hsome⟩
    obtain rfl := List.mem_singleton.mp hmem
    exact absurd hsome (by decide)
  exact ⟨fun hclosed => hparses hclosed.parses, ⟨_, cors_of_not_parses hparses, rfl⟩, by decide⟩

end Modo.Cors
