import Modo.Server.HostRouter

/-!
# The tenant of a subdomain

`SubdomainStrategy` reads the tenant of a request from the `Host` header.  The host router
resolves the host from `Forwarded` and `X-Forwarded-Host` first, and trims it.  Both cut
the subdomain off the same base domain.

`extract_eq_subdomain_iff` says for which requests they name the same subdomain.
-/

namespace Modo.Tenants

open Http Server

/-- `TenantId`. -/
inductive TenantId where
  | slug (slug : List Char)
  | domain (domain : List Char)
  | id (id : List Char)
  | apiKey (key : List Char)
  deriving DecidableEq

section Strategy

variable (toLowercase : List Char → List Char)

/-- `host_from_parts`. -/
def hostFromParts (parts : Parts) : Except (ℕ × String) (List Char) :=
  match parts.headers.get "host" with
  | none => .error (400, "missing Host header")
  | some value =>
      match toStr value with
      | none => .error (400, "invalid Host header")
      | some host => .ok (toLowercase (stripPort host))

/-- `SubdomainStrategy`. -/
structure SubdomainStrategy where
  baseDomain : List Char

/-- `SubdomainStrategy::new`. -/
def SubdomainStrategy.new (baseDomain : List Char) : SubdomainStrategy :=
  { baseDomain := toLowercase baseDomain }

/-- `SubdomainStrategy::extract`. -/
def SubdomainStrategy.extract (strategy : SubdomainStrategy) (parts : Parts) :
    Except (ℕ × String) TenantId :=
  match hostFromParts toLowercase parts with
  | .error response => .error response
  | .ok host =>
      let suffix := '.' :: strategy.baseDomain
      let subdomain := host.take (host.length - suffix.length)
      if suffix.isSuffixOf host = false then
        .error (400, "host is not a subdomain of base domain")
      else if subdomain.isEmpty then .error (400, "no subdomain in host")
      else if '.' ∈ subdomain then .error (400, "multi-level subdomains not allowed")
      else .ok (.slug subdomain)

end Strategy

/-! ## What is extracted -/

variable {toLowercase : List Char → List Char}

theorem hostFromParts_eq_ok_iff {parts : Parts} {host : List Char} :
    hostFromParts toLowercase parts = .ok host ↔
      ∃ value, parts.headers.getStr "host" = some value ∧ toLowercase (stripPort value) = host := by
  unfold hostFromParts HeaderMap.getStr
  cases hget : parts.headers.get "host" with
  | none => simp
  | some value => cases htext : toStr value <;> simp [htext]

/-- The slug is a label before the base domain. -/
theorem extract_eq_slug_iff {strategy : SubdomainStrategy} {parts : Parts} {label : List Char} :
    strategy.extract toLowercase parts = .ok (.slug label) ↔
      label ≠ [] ∧ '.' ∉ label ∧
        hostFromParts toLowercase parts = .ok (label ++ '.' :: strategy.baseDomain) := by
  unfold SubdomainStrategy.extract
  cases hhost : hostFromParts toLowercase parts with
  | error response => simp
  | ok host =>
      simp only [Except.ok.injEq]
      constructor
      · intro hextract
        split_ifs at hextract with hsuffix hempty hdot
        obtain rfl := TenantId.slug.inj (Except.ok.inj hextract)
        have hsuffix : '.' :: strategy.baseDomain <:+ host := by simpa using hsuffix
        obtain ⟨before, rfl⟩ := hsuffix
        rw [List.length_append, Nat.add_sub_cancel, List.take_left] at hempty hdot ⊢
        exact ⟨by simpa using hempty, hdot, rfl⟩
      · rintro ⟨hlabel, hdot, rfl⟩
        have hsuffix : ('.' :: strategy.baseDomain).isSuffixOf
            (label ++ '.' :: strategy.baseDomain) = true := by simp
        rw [List.length_append, Nat.add_sub_cancel, List.take_left, hsuffix, if_neg (by decide),
          if_neg (by simpa using hlabel), if_neg hdot]

/-! ## Agreement with the router -/

/-- The `Host` header and the host that the router resolves have the same label, before the
base domain and before the suffix that the router has for it. -/
def SameLabel (toLowercase : List Char → List Char) (base : List Char) (parts : Parts) : Prop :=
  ∃ label suffix value, label ≠ [] ∧ '.' ∉ label ∧
    parsePattern toLowercase (wildcardText base) = some (.wildcard suffix) ∧
    resolveHost toLowercase parts = .ok (label ++ '.' :: suffix) ∧
    parts.headers.getStr "host" = some value ∧
    toLowercase (stripPort value) = label ++ '.' :: toLowercase base

variable {Router : Type*} {inner : HostRouterInner Router}

/-- A wildcard match comes from the first label of the host. -/
theorem call_eq_wildcard (hkeeps : inner.KeepsText) {parts : Parts} {router : Router}
    {matched : MatchedHost} (hcall : inner.call toLowercase parts = .ok (router, some matched)) :
    ∃ suffix, matched.pattern = wildcardText suffix ∧ '.' ∉ matched.subdomain ∧
      resolveHost toLowercase parts = .ok (matched.subdomain ++ '.' :: suffix) := by
  unfold HostRouterInner.call at hcall
  cases hresolve : resolveHost toLowercase parts with
  | error response => simp [hresolve] at hcall
  | ok host =>
      simp only [hresolve] at hcall
      cases hmatch : inner.matchHost host with
      | exact other => simp [hmatch] at hcall
      | fallback other => simp [hmatch] at hcall
      | notFound => simp [hmatch] at hcall
      | wildcard other subdomain pattern =>
          simp only [hmatch, Except.ok.injEq, Prod.mk.injEq, Option.some.injEq] at hcall
          obtain ⟨rfl, rfl⟩ := hcall
          obtain ⟨suffix, hpattern, hsplit⟩ := HostRouterInner.matchHost_eq_wildcard hkeeps hmatch
          obtain ⟨rfl, hdot⟩ := Utf8.splitOnce_eq_some.mp hsplit
          exact ⟨suffix, hpattern, hdot, rfl⟩

/-- **The router and the tenant strategy**: the tenant of a request that matches `*.base` is
the subdomain that the router records exactly when the `Host` header names that subdomain
too. -/
theorem extract_eq_subdomain_iff {patterns : List (List Char × Router)} {fallback : Option Router}
    (hbuild : HostRouterInner.build toLowercase patterns fallback = some inner)
    {base suffix : List Char}
    (hpattern : parsePattern toLowercase (wildcardText base) = some (.wildcard suffix))
    {parts : Parts} {router : Router} {matched : MatchedHost}
    (hcall : inner.call toLowercase parts = .ok (router, some matched))
    (hmatched : matched.pattern = wildcardText suffix) :
    (SubdomainStrategy.new toLowercase base).extract toLowercase parts =
        .ok (.slug matched.subdomain) ↔
      SameLabel toLowercase base parts := by
  have hkeeps := (HostRouterInner.registerAll_spec hbuild).2.1
    (HostRouterInner.keepsText_new fallback)
  obtain ⟨tail, htext, hdot, hresolve⟩ := call_eq_wildcard hkeeps hcall
  obtain rfl : suffix = tail := by
    rw [hmatched] at htext
    exact (List.cons.inj (List.cons.inj htext).2).2
  rw [extract_eq_slug_iff, hostFromParts_eq_ok_iff]
  constructor
  · rintro ⟨hlabel, -, value, hvalue, hhost⟩
    exact ⟨matched.subdomain, suffix, value, hlabel, hdot, hpattern, hresolve, hvalue, hhost⟩
  · rintro ⟨label, other, value, hlabel, hnoDot, hother, hresolve', hvalue, hhost⟩
    obtain rfl : suffix = other :=
      HostPattern.wildcard.inj (Option.some.inj (hpattern.symm.trans hother))
    obtain rfl : matched.subdomain = label :=
      List.append_cancel_right (Except.ok.inj (hresolve.symm.trans hresolve'))
    exact ⟨hlabel, hdot, value, hvalue, hhost⟩

/-- The router of `*.a.b`. -/
def wildcardRouter : HostRouterInner ℕ where
  exact := ∅
  wildcard := AList.insert ['a', '.', 'b'] (wildcardText ['a', '.', 'b'], 0) ∅
  fallback := none

theorem build_wildcardRouter :
    HostRouterInner.build (List.map Char.toLower) wildcardPatterns none = some wildcardRouter :=
  rfl

theorem parsePattern_wildcard :
    parsePattern (List.map Char.toLower) (wildcardText ['a', '.', 'b']) =
      some (.wildcard ['a', '.', 'b']) :=
  rfl

/-- A request with the header `Host: t.a.b`. -/
def hostRequest : Parts := { headers := [("host", [116, 46, 97, 46, 98])], query := none }

theorem call_hostRequest :
    wildcardRouter.call (List.map Char.toLower) hostRequest =
      .ok (0, some { subdomain := ['t'], pattern := wildcardText ['a', '.', 'b'] }) := by
  decide +kernel

theorem extract_hostRequest :
    (SubdomainStrategy.new (List.map Char.toLower) ['a', '.', 'b']).extract
      (List.map Char.toLower) hostRequest = .ok (.slug ['t']) :=
  (extract_eq_subdomain_iff build_wildcardRouter parsePattern_wildcard call_hostRequest rfl).mpr
    ⟨['t'], ['a', '.', 'b'], ['t', '.', 'a', '.', 'b'], by decide, by decide,
      parsePattern_wildcard, by decide +kernel, by decide +kernel, by decide⟩

/-- A request behind a proxy, with `X-Forwarded-Host: u.a.b` and `Host: t.a.b`. -/
def forwardedRequest : Parts :=
  { headers := [("host", [116, 46, 97, 46, 98]), ("x-forwarded-host", [117, 46, 97, 46, 98])],
    query := none }

/-- The router records the subdomain `u` and the strategy extracts the tenant `t`. -/
theorem extract_forwardedRequest :
    wildcardRouter.call (List.map Char.toLower) forwardedRequest =
        .ok (0, some { subdomain := ['u'], pattern := wildcardText ['a', '.', 'b'] }) ∧
      (SubdomainStrategy.new (List.map Char.toLower) ['a', '.', 'b']).extract
        (List.map Char.toLower) forwardedRequest = .ok (.slug ['t']) := by
  decide +kernel

end Modo.Tenants
