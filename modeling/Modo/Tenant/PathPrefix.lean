import Modo.Tenant.Strategy

/-!
# The tenant of a path

`PathPrefixStrategy` takes the tenant from the path behind a prefix and rewrites the URI of the
request to what stands behind the tenant.

The new URI is built from a path and a query.  A URI in absolute form, as in HTTP/2 requests, has a
scheme and an authority too, and they are not copied (`rewrites_iff`).
-/

namespace Modo.Tenants

/-! ## URIs -/

/-- The characters of `http::Uri`. -/
structure UriGrammar where
  isPathChar : Char → Bool
  isQueryChar : Char → Bool
  slash : isPathChar '/' = true

/-- `http::Uri`. -/
structure Uri (grammar : UriGrammar) where
  scheme : Option (List Char)
  authority : Option (List Char)
  path : List Char
  query : Option (List Char)
  path_valid : ∀ c ∈ path, grammar.isPathChar c = true
  query_valid : ∀ q ∈ query, ∀ c ∈ q, grammar.isQueryChar c = true

/-- A path and a query in one text. -/
def pathAndQuery (path : List Char) (query : Option (List Char)) : List Char :=
  match query with
  | some q => path ++ '?' :: q
  | none => path

/-- `http::Uri::builder().path_and_query(..).build()`. -/
structure UriBuilder (grammar : UriGrammar) where
  build : List Char → Except String (Uri grammar)
  /-- A path and a query of the grammar are taken, and nothing is added. -/
  build_eq : ∀ path query, path.head? = some '/' → (∀ c ∈ path, grammar.isPathChar c = true) →
    (∀ q ∈ query, ∀ c ∈ q, grammar.isQueryChar c = true) →
    ∃ uri, build (pathAndQuery path query) = .ok uri ∧ uri.scheme = none ∧ uri.authority = none ∧
      uri.path = path ∧ uri.query = query

/-! ## The strategy -/

section Extract

variable {grammar : UriGrammar} (builder : UriBuilder grammar)

/-- `PathPrefixStrategy`. -/
structure PathPrefixStrategy where
  pathPrefix : List Char

/-- The slug and the remaining path. -/
def splitSlug (afterPrefix : List Char) : List Char × List Char :=
  match Text.splitFirst ['/'] afterPrefix with
  | some (slug, rest) => (slug, '/' :: rest)
  | none => (afterPrefix, ['/'])

/-- `PathPrefixStrategy::extract`, and the URI of the request afterwards. -/
def PathPrefixStrategy.extract (strategy : PathPrefixStrategy) (uri : Uri grammar) :
    Except (ℕ × String) TenantId × Uri grammar :=
  if strategy.pathPrefix.isPrefixOf uri.path = false then
    (.error (400, "path does not start with prefix '" ++ String.ofList strategy.pathPrefix ++ "'"),
      uri)
  else
    match uri.path.drop strategy.pathPrefix.length with
    | '/' :: afterPrefix =>
        if afterPrefix = [] then (.error (400, "no tenant segment after prefix"), uri)
        else
          let (slug, remaining) := splitSlug afterPrefix
          if slug = [] then (.error (400, "empty tenant slug in path"), uri)
          else
            match builder.build (pathAndQuery remaining uri.query) with
            | .error e => (.error (500, "failed to rewrite URI: " ++ e), uri)
            | .ok newUri => (.ok (.slug slug), newUri)
    | _ => (.error (400, "no tenant segment after prefix"), uri)

end Extract

/-! ## What is extracted -/

/-- The path is the prefix, a slash, the slug, and nothing or a rest that begins with a slash. -/
structure HasSlug (pathPrefix path slug rest : List Char) : Prop where
  path_eq : path = pathPrefix ++ '/' :: (slug ++ rest)
  slug_ne_nil : slug ≠ []
  slash_notMem : '/' ∉ slug
  rest : rest = [] ∨ rest.head? = some '/'

/-- What is left of the path. -/
def newPath (rest : List Char) : List Char := if rest = [] then ['/'] else rest

section Results

variable {grammar : UriGrammar} {builder : UriBuilder grammar}

theorem splitSlug_eq {slug rest : List Char} (hslash : '/' ∉ slug)
    (hrest : rest = [] ∨ rest.head? = some '/') :
    splitSlug (slug ++ rest) = (slug, newPath rest) := by
  unfold splitSlug newPath
  rcases hrest with rfl | hhead
  · have hnone : Text.splitFirst ['/'] slug = none := by
      rw [Text.splitFirst_eq_none (by simp)]
      exact fun hoccurs => hslash (hoccurs.subset (List.mem_singleton_self _))
    rw [List.append_nil, hnone, if_pos rfl]
  · obtain ⟨tail, rfl⟩ := List.head?_eq_some_iff.mp hhead
    have hsome : Text.splitFirst ['/'] ('/' :: tail) = some ([], tail) :=
      Text.splitFirst_of_isPrefix (by simp) tail
    rw [Text.splitFirst_append_of_notMem hslash, hsome]
    simp

/-- With a slug, the URI is rewritten to what stands behind it. -/
theorem extract_of_hasSlug (builder : UriBuilder grammar) {strategy : PathPrefixStrategy}
    {uri : Uri grammar} {slug rest : List Char}
    (hslug : HasSlug strategy.pathPrefix uri.path slug rest) :
    ∃ newUri, strategy.extract builder uri = (.ok (.slug slug), newUri) ∧
      newUri.scheme = none ∧ newUri.authority = none ∧ newUri.path = newPath rest ∧
      newUri.query = uri.query := by
  have hpath := hslug.path_eq
  have hnewHead : (newPath rest).head? = some '/' := by
    unfold newPath
    split
    · rfl
    · rename_i hne
      exact hslug.rest.resolve_left hne
  have hnewValid : ∀ c ∈ newPath rest, grammar.isPathChar c = true := by
    intro c hc
    unfold newPath at hc
    split at hc
    · rw [List.mem_singleton.mp hc]
      exact grammar.slash
    · apply uri.path_valid
      rw [hpath]
      simp [hc]
  obtain ⟨newUri, hbuild, hnew⟩ :=
    builder.build_eq (newPath rest) uri.query hnewHead hnewValid uri.query_valid
  have hprefix : strategy.pathPrefix.isPrefixOf uri.path = true := by
    rw [List.isPrefixOf_iff_prefix, hpath]
    exact List.prefix_append _ _
  have hne : slug ++ rest ≠ [] := fun h => hslug.slug_ne_nil (List.append_eq_nil_iff.mp h).1
  refine ⟨newUri, ?_, hnew⟩
  rw [PathPrefixStrategy.extract, hprefix, if_neg (by simp), hpath, List.drop_left]
  simp only [if_neg hne, splitSlug_eq hslug.slash_notMem hslug.rest, if_neg hslug.slug_ne_nil,
    hbuild]

/-- The first segment behind the prefix is the slug. -/
theorem hasSlug_of_segment {pathPrefix path afterPrefix : List Char}
    (hpath : path = pathPrefix ++ '/' :: afterPrefix) (hslug : (splitSlug afterPrefix).1 ≠ []) :
    ∃ slug rest, HasSlug pathPrefix path slug rest := by
  by_cases hmem : '/' ∈ afterPrefix
  · obtain ⟨slug, rest, rfl, hslash⟩ := List.eq_append_cons_of_mem hmem
    rw [splitSlug_eq hslash (Or.inr rfl)] at hslug
    exact ⟨slug, '/' :: rest, hpath, hslug, hslash, Or.inr rfl⟩
  · have hsplit := splitSlug_eq hmem (Or.inl rfl)
    rw [List.append_nil] at hsplit
    rw [hsplit] at hslug
    exact ⟨afterPrefix, [], by rw [hpath, List.append_nil], hslug, hmem, Or.inl rfl⟩

/-- Without a slug, the URI stays as it is. -/
theorem extract_of_not_hasSlug {strategy : PathPrefixStrategy} {uri : Uri grammar}
    (hnone : ¬ ∃ slug rest, HasSlug strategy.pathPrefix uri.path slug rest) :
    ∃ error, strategy.extract builder uri = (.error error, uri) := by
  unfold PathPrefixStrategy.extract
  split
  · exact ⟨_, rfl⟩
  · rename_i hprefix
    rw [Bool.not_eq_false, List.isPrefixOf_iff_prefix] at hprefix
    obtain ⟨behind, hbehind⟩ := hprefix
    rw [← hbehind, List.drop_left]
    split
    · rename_i afterPrefix
      split
      · exact ⟨_, rfl⟩
      · by_cases hslug : (splitSlug afterPrefix).1 = []
        · simp only [hslug, if_true]
          exact ⟨_, rfl⟩
        · exact absurd (hasSlug_of_segment hbehind.symm hslug) hnone
    · exact ⟨_, rfl⟩

/-- The slug is extracted, the path is cut, and the rest of the URI is as before; without a slug,
the URI is. -/
def Rewrites (builder : UriBuilder grammar) (strategy : PathPrefixStrategy) (uri : Uri grammar) :
    Prop :=
  (∀ slug rest, HasSlug strategy.pathPrefix uri.path slug rest →
    ∃ newUri, strategy.extract builder uri = (.ok (.slug slug), newUri) ∧
      newUri.path = newPath rest ∧ newUri.query = uri.query ∧ newUri.scheme = uri.scheme ∧
      newUri.authority = uri.authority) ∧
  ((¬ ∃ slug rest, HasSlug strategy.pathPrefix uri.path slug rest) →
    ∃ error, strategy.extract builder uri = (.error error, uri))

/-- **Path prefixes.**  The request is rewritten as it should be exactly when nothing is extracted,
or there is neither a scheme nor an authority. -/
theorem rewrites_iff (builder : UriBuilder grammar) (strategy : PathPrefixStrategy)
    (uri : Uri grammar) :
    Rewrites builder strategy uri ↔
      (¬ ∃ slug rest, HasSlug strategy.pathPrefix uri.path slug rest) ∨
        uri.scheme = none ∧ uri.authority = none := by
  constructor
  · rintro ⟨hrewrites, -⟩
    by_cases hslug : ∃ slug rest, HasSlug strategy.pathPrefix uri.path slug rest
    · obtain ⟨slug, rest, hslug⟩ := hslug
      obtain ⟨newUri, hextract, -, -, hscheme, hauthority⟩ := hrewrites slug rest hslug
      obtain ⟨built, hbuilt, hnone, hnone', -, -⟩ := extract_of_hasSlug builder hslug
      rw [hextract, Prod.mk.injEq] at hbuilt
      rw [← hscheme, ← hauthority, hbuilt.2]
      exact Or.inr ⟨hnone, hnone'⟩
    · exact Or.inl hslug
  · intro hcondition
    refine ⟨fun slug rest hslug => ?_, fun hnone => extract_of_not_hasSlug hnone⟩
    obtain ⟨newUri, hextract, hscheme, hauthority, hpath, hquery⟩ :=
      extract_of_hasSlug builder hslug
    obtain ⟨hnone, hnone'⟩ := hcondition.resolve_left fun h => h ⟨slug, rest, hslug⟩
    exact ⟨newUri, hextract, hpath, hquery, hscheme.trans hnone.symm, hauthority.trans hnone'.symm⟩

end Results

/-! ### A request in absolute form -/

/-- Visible ASCII characters, a question mark only in the query. -/
def asciiGrammar : UriGrammar where
  isPathChar c := decide ('!' ≤ c ∧ c ≤ '~') && c != '?' && c != '#'
  isQueryChar c := decide ('!' ≤ c ∧ c ≤ '~') && c != '#'
  slash := by decide

/-- The query of a path and a query. -/
def queryOf (text : List Char) : Option (List Char) :=
  match text.dropWhile (· ≠ '?') with
  | [] => none
  | _ :: q => some q

theorem splitQuery {path : List Char} (hpath : '?' ∉ path) (query : Option (List Char)) :
    (pathAndQuery path query).takeWhile (· ≠ '?') = path ∧
      queryOf (pathAndQuery path query) = query := by
  have hall : ∀ c ∈ path, decide (c ≠ '?') = true := fun c hc =>
    decide_eq_true fun heq => hpath (heq ▸ hc)
  cases query with
  | none =>
      rw [pathAndQuery, queryOf, List.takeWhile_eq_self_iff.mpr hall,
        List.dropWhile_eq_nil_iff.mpr hall]
      exact ⟨rfl, rfl⟩
  | some q =>
      rw [pathAndQuery, queryOf, List.takeWhile_append_of_pos hall,
        List.dropWhile_append_of_pos hall]
      simp

/-- A builder that checks the characters. -/
def asciiBuilder : UriBuilder asciiGrammar where
  build text :=
    if hvalid : (∀ c ∈ text.takeWhile (· ≠ '?'), asciiGrammar.isPathChar c = true) ∧
        ∀ q ∈ queryOf text, ∀ c ∈ q, asciiGrammar.isQueryChar c = true then
      .ok { scheme := none, authority := none, path := text.takeWhile (· ≠ '?')
            query := queryOf text, path_valid := hvalid.1, query_valid := hvalid.2 }
    else .error "invalid uri character"
  build_eq path query _ hpath hquery := by
    have hmark : '?' ∉ path := fun hmem => absurd (hpath '?' hmem) (by decide)
    obtain ⟨htake, hrest⟩ := splitQuery hmark query
    refine ⟨_, dif_pos ⟨by rwa [htake], by rwa [hrest]⟩, rfl, rfl, htake, hrest⟩

/-- A request of HTTP/2. -/
def absoluteUri : Uri asciiGrammar where
  scheme := some "https".toList
  authority := some "example.com".toList
  path := "/org/acme/settings".toList
  query := some "tab=billing".toList
  path_valid := by decide
  query_valid := by
    intro q hq
    rw [← Option.some.inj hq]
    decide

/-- The scheme and the authority of a request in absolute form are lost. -/
theorem absoluteUri_loses :
    ((PathPrefixStrategy.mk "/org".toList).extract asciiBuilder absoluteUri).1 =
        .ok (.slug "acme".toList) ∧
      ((PathPrefixStrategy.mk "/org".toList).extract asciiBuilder absoluteUri).2.authority = none ∧
      ¬ Rewrites asciiBuilder (.mk "/org".toList) absoluteUri := by
  have hslug : HasSlug (PathPrefixStrategy.mk "/org".toList).pathPrefix absoluteUri.path
      "acme".toList "/settings".toList :=
    ⟨rfl, by simp, by decide, Or.inr rfl⟩
  obtain ⟨newUri, hextract, -, hauthority, -, -⟩ :=
    extract_of_hasSlug asciiBuilder hslug
  rw [hextract]
  refine ⟨rfl, hauthority, ?_⟩
  rintro ⟨hrewrites, -⟩
  obtain ⟨other, hother, -, -, -, hkept⟩ := hrewrites _ _ hslug
  rw [hextract, Prod.mk.injEq] at hother
  rw [← hother.2, hauthority] at hkept
  cases hkept

end Modo.Tenants
